import IrGraph.Operation
import IrGraph.Types.Table

/-! Instructions that compute or act inside a block. -/

namespace IrGraph

/-- One edge into a `phi`: the value that flows in and the block it comes from. -/
structure Incoming where
  value : Value
  pred : Value
  deriving DecidableEq, Repr

inductive ClauseKind
  | catch
  | filter
  deriving DecidableEq, Repr

instance : Keyword ClauseKind where
  all := [.catch, .filter]
  keyword
    | .catch => "catch"
    | .filter => "filter"
  find?_keyword a := by cases a <;> rfl
  isWord a := by cases a <;> rfl

structure Clause where
  kind : ClauseKind
  value : Value
  deriving DecidableEq, Repr

/-- Tagged operands of a call. -/
structure Bundle where
  tag : String
  inputs : List Value
  deriving DecidableEq, Repr

inductive Instruction
  | unary (op : UnaryOp) (x : Value)
  | binary (op : BinaryOp) (x y : Value)
  | bitwise (op : BitwiseOp) (x y : Value)
  | extractElement (x index : Value)
  | insertElement (x elem index : Value)
  | shuffleVector (x y mask : Value)
  | extractValue (x : Value) (indices : List Nat)
  | insertValue (x elem : Value) (indices : List Nat)
  | alloca (elemType : TypeRef) (count : Option Value) (addrSpace : Nat)
  | load (elemType : TypeRef) (source : Value) (isVolatile : Bool)
  | store (source dest : Value) (isVolatile : Bool)
  | fence (ordering : MemoryOrdering)
  | cmpxchg (pointer expected replacement : Value) (success failure : MemoryOrdering)
  | atomicrmw (op : AtomicOp) (dest x : Value) (ordering : MemoryOrdering)
  | getElementPtr (elemType : TypeRef) (source : Value) (indices : List Value) (inBounds : Bool)
  | conversion (op : ConversionOp) (x : Value) (target : TypeRef)
  | icmp (predicate : IntPredicate) (x y : Value)
  | fcmp (predicate : FloatPredicate) (x y : Value)
  | phi (type : TypeRef) (incoming : List Incoming)
  | select (cond x y : Value)
  /-- The function type is the callee's; its result is the type of the call. -/
  | call (funcType : TypeRef) (callee : Value) (args : List Value) (bundles : List Bundle)
      (isTail : Bool)
  | vaArg (list : Value) (type : TypeRef)
  | landingpad (type : TypeRef) (cleanup : Bool) (clauses : List Clause)
  | catchpad (scope : Value) (args : List Value)
  | cleanuppad (scope : Value) (args : List Value)
  /-- A note among the instructions, without operands or result. -/
  | comment (text : String)
  deriving DecidableEq, Repr

namespace Instruction

def kindName : Instruction → String
  | unary op _ => keyword op
  | binary op _ _ => keyword op
  | bitwise op _ _ => keyword op
  | extractElement .. => "extractelement"
  | insertElement .. => "insertelement"
  | shuffleVector .. => "shufflevector"
  | extractValue .. => "extractvalue"
  | insertValue .. => "insertvalue"
  | alloca .. => "alloca"
  | load .. => "load"
  | store .. => "store"
  | fence .. => "fence"
  | cmpxchg .. => "cmpxchg"
  | atomicrmw .. => "atomicrmw"
  | getElementPtr .. => "getelementptr"
  | conversion op _ _ => keyword op
  | icmp .. => "icmp"
  | fcmp .. => "fcmp"
  | phi .. => "phi"
  | select .. => "select"
  | call .. => "call"
  | vaArg .. => "va_arg"
  | landingpad .. => "landingpad"
  | catchpad .. => "catchpad"
  | cleanuppad .. => "cleanuppad"
  | comment .. => "comment"

end Instruction

end IrGraph
