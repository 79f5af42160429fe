import IrGraph.Instruction.Basic

/-! Terminators: what ends a block. -/

namespace IrGraph

/-- A `switch` case: the constant compared with and the block jumped to. -/
structure Case where
  value : Value
  target : Value
  deriving DecidableEq, Repr

inductive Terminator
  | ret (x : Option Value)
  | br (target : Value)
  | condbr (cond targetTrue targetFalse : Value)
  | switch (x targetDefault : Value) (cases : List Case)
  | indirectbr (address : Value) (validTargets : List Value)
  | invoke (funcType : TypeRef) (invokee : Value) (args : List Value) (normal exception : Value)
      (bundles : List Bundle)
  | callbr (funcType : TypeRef) (callee : Value) (args : List Value) (normal : Value)
      (others : List Value) (bundles : List Bundle)
  | resume (x : Value)
  /-- Without an unwind target it unwinds to the caller. -/
  | catchswitch (scope : Value) (handlers : List Value) (unwindTarget : Option Value)
  | catchret (pad target : Value)
  /-- Without an unwind target it unwinds to the caller. -/
  | cleanupret (pad : Value) (unwindTarget : Option Value)
  | unreachable
  deriving DecidableEq, Repr

namespace Terminator

def kindName : Terminator → String
  | ret _ => "ret"
  | br _ => "br"
  | condbr .. => "condbr"
  | switch .. => "switch"
  | indirectbr .. => "indirectbr"
  | invoke .. => "invoke"
  | callbr .. => "callbr"
  | resume _ => "resume"
  | catchswitch .. => "catchswitch"
  | catchret .. => "catchret"
  | cleanupret .. => "cleanupret"
  | unreachable => "unreachable"

end Terminator

end IrGraph
