import IrGraph.Target.Layout
import IrGraph.Types.Text

/-! Sizes of types in bits. Integers and floats need no target; pointers have the size that the
layout of a target gives them. -/

namespace IrGraph

inductive SizeError
  | unsupported (type : String)
  | missingPointerSpec (addrSpace : Nat)
  deriving DecidableEq, Repr

def SizeError.message : SizeError → String
  | unsupported type => "size of `" ++ type ++ "` is not known to this layout"
  | missingPointerSpec addrSpace =>
    "no pointer specification for address space " ++ toString addrSpace

/-- The size of a type without a target. -/
def TypeTable.sizeOf (t : TypeTable) (r : TypeRef) : Except Fault (Except SizeError Nat) := do
  match ← t.get r with
  | .int bits => return .ok bits
  | .float format => return .ok format.bits
  | _ => return .error (.unsupported (← t.text r))

/-- The size of a type on a target. -/
def Layout.sizeOf (l : Layout) (t : TypeTable) (r : TypeRef) :
    Except Fault (Except SizeError Nat) := do
  match ← t.get r with
  | .pointer addrSpace =>
    match l.pointers.find? (UInt64.ofNat addrSpace) with
    | some p => return .ok p.size.toNat
    | none => return .error (.missingPointerSpec addrSpace)
  | _ => t.sizeOf r

end IrGraph
