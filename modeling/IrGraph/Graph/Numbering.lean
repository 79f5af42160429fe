import IrGraph.Graph.Basic

/-! Numbers of unnamed local values. Parameters come first, then for each block its label, its
instructions and its terminator; instructions and terminators of type void have no number. The
counter is a 32-bit word, and counting past its last value is a fault. -/

namespace IrGraph

structure OutOfOrder where
  func : String
  expected : Nat
  found : Nat
  deriving DecidableEq, Repr

def OutOfOrder.message (e : OutOfOrder) : String :=
  "invalid local ID in function @" ++ e.func ++ ": expected %" ++ toString e.expected ++
    ", found %" ++ toString e.found

namespace Graph

def nextNumber (n : Nat) : Except Fault Nat :=
  if n + 1 < UInt32.size then .ok (n + 1) else .error .overflow

def isNumbered (g : Graph) : Value → Except Fault Bool
  | .param _ | .block _ => .ok true
  | .inst i => return !(← g.types.isVoid (← g.insts.get i).type)
  | .term t => return !(← g.types.isVoid (← g.terms.get t).type)
  | _ => .ok false

/-- Numbers the values from `next` on and stops at the first one that has another number. -/
def numberFrom (g : Graph) (func : String) : Nat → List Value →
    Except Fault (Option OutOfOrder × Graph)
  | _, [] => .ok (none, g)
  | next, v :: rest => do
    if !(← g.isNumbered v) then g.numberFrom func next rest
    else
      match ← g.localIdent? v with
      | some ⟨none, some found⟩ =>
        if found = next then g.numberFrom func (← nextNumber next) rest
        else return (some ⟨func, next, found⟩, g)
      | some ⟨none, none⟩ =>
        let g ← g.modifyIdent v fun ident => { ident with id := some next }
        g.numberFrom func (← nextNumber next) rest
      | _ => g.numberFrom func next rest

def locals (g : Graph) (f : Func) : Except Fault (List Value) :=
  return f.params.map .param ++ (← g.layout f)

/-- Gives the unnamed local values of a function consecutive numbers. What was numbered before an
error stays numbered. -/
def assignIds (g : Graph) (f : FuncRef) : Except Fault (Option OutOfOrder × Graph) := do
  let func ← g.funcs.get f
  g.numberFrom func.name 0 (← g.locals func)

def resetNames (g : Graph) (f : FuncRef) : Except Fault Graph := do
  let values ← g.layout (← g.funcs.get f)
  values.foldlM (fun g v => g.modifyIdent v Ident.dropNumber) g

end Graph

end IrGraph
