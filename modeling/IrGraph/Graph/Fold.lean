import IrGraph.Constant.Arithmetic
import IrGraph.Graph.Create

/-! Folding of constant expressions. A binary expression whose operands reduce to literals becomes
a literal; anything else is left as it is, also when its operands were folded on the way. -/

namespace IrGraph.Graph

def foldLiterals (g : Graph) (op : BinaryOp) (x y : Constant) : Except Fault (Option Constant) :=
  match x, y with
  | .int type a, .int _ b => do
    -- the result is as wide as the first operand
    let bits := (← g.types.intBits? type).getD 128
    return (foldInt op bits a b).map (.int type)
  | .float type a, .float _ b => return (foldFloat op a b).map (.float type)
  | _, _ => return none

def simplifyWithin (g : Graph) : Nat → ConstRef → Except Fault (ConstRef × Graph)
  | 0, _ => .error .endless
  | depth + 1, c => do
    match (← g.consts.get c).data with
    | .expr (.binary op (.const x) (.const y)) =>
      let (x, g) ← g.simplifyWithin depth x
      let (y, g) ← g.simplifyWithin depth y
      match ← g.foldLiterals op (← g.consts.get x).data (← g.consts.get y).data with
      | some literal => g.addConst literal
      | none => return (c, g)
    | _ => return (c, g)

/-- Folds a constant expression. Expressions nest no deeper than there are constants. -/
def simplify (g : Graph) (c : ConstRef) : Except Fault (ConstRef × Graph) :=
  g.simplifyWithin (g.consts.size + 1) c

end IrGraph.Graph
