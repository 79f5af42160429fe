import IrGraph.Reference

/-! Why an operation on a graph is refused. Each cause has one text. -/

namespace IrGraph

/-- Where an instruction goes in the list of its block. -/
inductive Placement
  | atEnd
  | beforeAnother
  deriving DecidableEq, Repr

/-- The name of the operation that puts it there. -/
def Placement.operation : Placement → String
  | .atEnd => "push_inst"
  | .beforeAnother => "insert_inst_before"

inductive Fault
  /-- A reference past the end of its arena. -/
  | outOfRange (size index : Nat)
  | notFunctionType (found : String)
  | notVectorType (found : String)
  | notAggregateType (found : String)
  | maskNotVector
  /-- A position past the end of a structure type. -/
  | noField (index : Nat) (found : String)
  | paramTaken (param : ParamRef) (owner wanted : FuncRef)
  | blockTaken (block : BlockRef) (owner wanted : FuncRef)
  /-- An attached instruction cannot be attached again. -/
  | instTaken (place : Placement) (inst : InstRef) (owner : BlockRef)
  | notInBlock (before : InstRef) (block : BlockRef)
  | termTaken (term : TermRef) (owner wanted : BlockRef)
  | staleUse (owner slot : String)
  | nonFunctionType (name found : String)
  /-- A sum that a machine word does not hold. -/
  | overflow
  /-- A text, a type or a constant that contains itself. -/
  | endless
  deriving DecidableEq, Repr

def Fault.message : Fault → String
  | outOfRange size index =>
    "index out of bounds: the len is " ++ toString size ++ " but the index is " ++ toString index
  | notFunctionType found => "expected a function type, found `" ++ found ++ "`"
  | notVectorType found => "expected a vector type, found `" ++ found ++ "`"
  | notAggregateType found => "expected an aggregate type, found `" ++ found ++ "`"
  | maskNotVector => "shufflevector: mask is not a vector"
  | noField index found => "index " ++ toString index ++ " out of range for `" ++ found ++ "`"
  | paramTaken param owner wanted =>
    "create_func: param " ++ param.text ++ " already belongs to function " ++ owner.text ++
      "; cannot reassign to " ++ wanted.text
  | blockTaken block owner wanted =>
    "block " ++ block.text ++ " already belongs to function " ++ owner.text ++
      "; cannot reassign to " ++ wanted.text
  | instTaken place inst owner =>
    place.operation ++ ": instruction " ++ inst.text ++ " already belongs to block " ++
      owner.text ++ "; remove it from the old block first"
  | notInBlock before block =>
    "insert_inst_before: " ++ before.text ++ " not found in block " ++ block.text
  | termTaken term owner wanted =>
    "set_term: terminator " ++ term.text ++ " already belongs to block " ++ owner.text ++
      "; cannot reassign to " ++ wanted.text
  | staleUse owner slot => "stale use: `" ++ owner ++ "` has no operand slot " ++ slot
  | nonFunctionType name found =>
    "function @" ++ name ++ " has non-function type `" ++ found ++ "`"
  | overflow => "attempt to add with overflow"
  | endless => "endless nesting"

/-- A sequence of two steps succeeds when the first does and then the second. -/
theorem bind_eq_ok {α β : Type} {x : Except Fault α} {f : α → Except Fault β} {b : β}
    (h : x >>= f = .ok b) : ∃ a, x = .ok a ∧ f a = .ok b := by
  cases x with
  | error e => cases h
  | ok a => exact ⟨a, rfl, h⟩

end IrGraph
