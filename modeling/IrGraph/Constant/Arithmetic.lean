import IrGraph.Constant.Basic

/-! Arithmetic of integer literals. A literal of `bits` bits is stored in a word of 128; results
are cut down to the width and extended with their sign again. Widths from 128 on leave the word
as it is. -/

namespace IrGraph

abbrev Word := BitVec 128

/-- The stored form of a literal: its low `bits` bits, extended with their sign. -/
def wrap (bits : Nat) (v : Word) : Word :=
  if bits = 0 ∨ 128 ≤ bits then v else (v.setWidth bits).signExtend 128

/-- The low `bits` bits, read without a sign. -/
def unsignedView (bits : Nat) (v : Word) : Word :=
  if 128 ≤ bits then v else (v.setWidth bits).setWidth 128

/-- Sum, difference, product or quotient of two literals; there is no quotient by zero, and no
other operator is folded. -/
def foldInt (op : BinaryOp) (bits : Nat) (a b : Word) : Option Word :=
  match op with
  | .add => some (wrap bits (a + b))
  | .sub => some (wrap bits (a - b))
  | .mul => some (wrap bits (a * b))
  | .sdiv => if wrap bits b = 0 then none else some (wrap bits ((wrap bits a).sdiv (wrap bits b)))
  | .udiv =>
    if unsignedView bits b = 0 then none
    else some (wrap bits (unsignedView bits a / unsignedView bits b))
  | _ => none

def foldFloat (op : BinaryOp) (a b : Double) : Option Double :=
  match op with
  | .fadd => some (a.add b)
  | .fsub => some (a.sub b)
  | .fmul => some (a.mul b)
  | _ => none

end IrGraph
