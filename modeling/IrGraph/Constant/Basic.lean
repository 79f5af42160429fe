import IrGraph.Decimal.Double
import IrGraph.Operation
import IrGraph.Types.Table

/-! Constants and constant expressions. The parts of a constant are operands, so the address of
a global value stands in it as the value itself. -/

namespace IrGraph

inductive ConstExpr
  | unary (op : UnaryOp) (x : Value)
  | binary (op : BinaryOp) (x y : Value)
  | bitwise (op : BitwiseOp) (x y : Value)
  | extractElement (x index : Value)
  | insertElement (x elem index : Value)
  | shuffleVector (x y mask : Value)
  | extractValue (x : Value) (indices : List Nat)
  | insertValue (x elem : Value) (indices : List Nat)
  | getElementPtr (elemType : TypeRef) (source : Value) (indices : List Value) (inBounds : Bool)
  | conversion (op : ConversionOp) (x : Value) (target : TypeRef)
  | icmp (predicate : IntPredicate) (x y : Value)
  | fcmp (predicate : FloatPredicate) (x y : Value)
  | select (cond x y : Value)
  deriving DecidableEq, Repr

namespace ConstExpr

def kindName : ConstExpr → String
  | unary op _ => keyword op
  | binary op _ _ => keyword op
  | bitwise op _ _ => keyword op
  | extractElement .. => "extractelement"
  | insertElement .. => "insertelement"
  | shuffleVector .. => "shufflevector"
  | extractValue .. => "extractvalue"
  | insertValue .. => "insertvalue"
  | getElementPtr .. => "getelementptr"
  | conversion op _ _ => keyword op
  | icmp .. => "icmp"
  | fcmp .. => "fcmp"
  | select .. => "select"

/-- The operands, first to last. -/
def parts : ConstExpr → List Value
  | unary _ x | extractValue x _ | conversion _ x _ => [x]
  | binary _ x y | bitwise _ x y | icmp _ x y | fcmp _ x y => [x, y]
  | extractElement x index => [x, index]
  | insertElement x elem index => [x, elem, index]
  | shuffleVector x y mask => [x, y, mask]
  | insertValue x elem _ => [x, elem]
  | getElementPtr _ source indices _ => source :: indices
  | select cond x y => [cond, x, y]

end ConstExpr

inductive Constant
  /-- An integer literal, stored as a signed word of 128 bits whatever the width of its type. -/
  | int (type : TypeRef) (value : BitVec 128)
  | float (type : TypeRef) (value : Double)
  | null (type : TypeRef)
  | noneToken
  | struct (type : TypeRef) (fields : List Value)
  | array (type : TypeRef) (elems : List Value)
  | charArray (type : TypeRef) (bytes : List UInt8)
  | vector (type : TypeRef) (elems : List Value)
  | zeroInitializer (type : TypeRef)
  | undef (type : TypeRef)
  | blockAddress (func block : Value)
  | expr (e : ConstExpr)
  deriving DecidableEq, Repr

namespace Constant

def kindName : Constant → String
  | int .. => "int"
  | float .. => "float"
  | null .. => "null"
  | noneToken => "none"
  | struct .. => "struct"
  | array .. => "array"
  | charArray .. => "char array"
  | vector .. => "vector"
  | zeroInitializer .. => "zeroinitializer"
  | undef .. => "undef"
  | blockAddress .. => "blockaddress"
  | expr e => e.kindName

/-- The operands, first to last. -/
def parts : Constant → List Value
  | struct _ fields => fields
  | array _ elems | vector _ elems => elems
  | blockAddress func block => [func, block]
  | expr e => e.parts
  | int .. | float .. | null .. | noneToken | charArray .. | zeroInitializer .. | undef .. => []

end Constant

end IrGraph
