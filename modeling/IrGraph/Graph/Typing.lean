import IrGraph.Graph.Basic
import IrGraph.Types.Text

/-! Result types. They follow from the types of operands; a comparison, a shuffle and an exchange
may need a type that the table does not have yet, so the table comes back too. -/

namespace IrGraph.Graph

abbrev Typed := TypeRef × TypeTable

/-- A type that is there already. -/
def known (g : Graph) (r : TypeRef) : Typed :=
  (r, g.types)

def funcResult (g : Graph) (type : TypeRef) : Except Fault TypeRef := do
  match ← g.types.get type with
  | .func result _ _ => return result
  | _ => throw (.notFunctionType (← g.types.text type))

def vectorElem (g : Graph) (type : TypeRef) : Except Fault TypeRef := do
  match ← g.types.get type with
  | .vector _ elem _ => return elem
  | _ => throw (.notVectorType (← g.types.text type))

/-- The type at a path of positions in an aggregate type. Positions in arrays and vectors are not
checked. -/
def aggregateElem (g : Graph) (type : TypeRef) : List Nat → Except Fault TypeRef
  | [] => .ok type
  | i :: path => do
    match ← g.types.get type with
    | .array _ elem | .vector _ elem _ => g.aggregateElem elem path
    | .struct fields _ =>
      match fields[i]? with
      | some field => g.aggregateElem field path
      | none => throw (.noField i (← g.types.text type))
    | _ => throw (.notAggregateType (← g.types.text type))

/-- One bit, or for a vector operand a vector of as many bits. -/
def comparisonType (g : Graph) (operand : Value) : Except Fault Typed := do
  let (bit, types) := g.types.intern (.int 1)
  match ← types.get (← g.valueType operand) with
  | .vector length _ scalable => return types.intern (.vector length bit scalable)
  | _ => return (bit, types)

/-- Elements of the operand, as many as the mask has. -/
def shuffleType (g : Graph) (x mask : Value) : Except Fault Typed := do
  let elem ← g.vectorElem (← g.valueType x)
  match ← g.types.get (← g.valueType mask) with
  | .vector length _ scalable => return g.types.intern (.vector length elem scalable)
  | _ => throw .maskNotVector

/-- The value found and whether it was the expected one. -/
def exchangeType (g : Graph) (expected : Value) : Except Fault Typed := do
  let found ← g.valueType expected
  let (bit, types) := g.types.intern (.int 1)
  return types.intern (.struct [found, bit] false)

def instType (g : Graph) : Instruction → Except Fault Typed
  | .unary _ x | .binary _ x _ | .bitwise _ x _ | .insertElement x _ _ | .insertValue x _ _
  | .atomicrmw _ _ x _ | .select _ x _ => return g.known (← g.valueType x)
  | .extractElement x _ => return g.known (← g.vectorElem (← g.valueType x))
  | .shuffleVector x _ mask => g.shuffleType x mask
  | .extractValue x path => return g.known (← g.aggregateElem (← g.valueType x) path)
  | .alloca _ _ addrSpace => return g.types.intern (.pointer addrSpace)
  | .load type _ _ => return g.known type
  | .store .. | .fence _ | .comment _ => return g.known .void
  | .cmpxchg _ expected _ _ _ => g.exchangeType expected
  | .getElementPtr _ source _ _ => return g.known (← g.valueType source)
  | .conversion _ _ target => return g.known target
  | .icmp _ x _ | .fcmp _ x _ => g.comparisonType x
  | .phi type _ | .vaArg _ type | .landingpad type _ _ => return g.known type
  | .call funcType _ _ _ _ => return g.known (← g.funcResult funcType)
  | .catchpad .. | .cleanuppad .. => return g.known .token

def termType (g : Graph) : Terminator → Except Fault TypeRef
  | .invoke funcType .. | .callbr funcType .. => g.funcResult funcType
  | .catchswitch .. => return .token
  | _ => return .void

def exprType (g : Graph) : ConstExpr → Except Fault Typed
  | .unary _ x | .binary _ x _ | .bitwise _ x _ | .insertElement x _ _ | .insertValue x _ _
  | .select _ x _ => return g.known (← g.valueType x)
  | .extractElement x _ => return g.known (← g.vectorElem (← g.valueType x))
  | .shuffleVector x _ mask => g.shuffleType x mask
  | .extractValue x path => return g.known (← g.aggregateElem (← g.valueType x) path)
  | .getElementPtr _ source _ _ => return g.known (← g.valueType source)
  | .conversion _ _ target => return g.known target
  | .icmp _ x _ | .fcmp _ x _ => g.comparisonType x

def constType (g : Graph) : Constant → Except Fault Typed
  | .int type _ | .float type _ | .null type | .struct type _ | .array type _ | .charArray type _
  | .vector type _ | .zeroInitializer type | .undef type => return g.known type
  | .noneToken => return g.known .token
  | .blockAddress .. => return g.known .pointer
  | .expr e => g.exprType e

end IrGraph.Graph
