import IrGraph.Constant.Basic
import IrGraph.Instruction.Basic
import IrGraph.Metadata.Basic
import IrGraph.Terminator.Basic
import IrGraph.Text.Name

/-! What the arenas of a graph hold. A block lists its instructions and each of them names the
block as its owner; likewise a function and its parameters and blocks. -/

namespace IrGraph

structure Module where
  sourceFilename : Option String
  dataLayout : Option String
  targetTriple : Option String
  globals : List GlobalRef
  funcs : List FuncRef
  aliases : List AliasRef
  ifuncs : List IFuncRef
  useListOrders : List UseListOrderRef
  useListOrderBlocks : List UseListOrderBlockRef
  namedMetadata : List NamedMetadataRef
  deriving DecidableEq, Repr

/-- A global variable; one without an initial value is declared elsewhere. -/
structure GlobalVar where
  name : String
  contentType : TypeRef
  immutable : Bool
  init : Option Value
  deriving DecidableEq, Repr

/-- A function; one without blocks is declared only. -/
structure Func where
  name : String
  type : TypeRef
  params : List ParamRef
  blocks : List BlockRef
  prefixData : Option Value
  prologueData : Option Value
  personality : Option Value
  useListOrders : List UseListOrderRef
  deriving DecidableEq, Repr

structure GlobalAlias where
  name : String
  contentType : TypeRef
  aliasee : Value
  deriving DecidableEq, Repr

/-- A function that is chosen at load time. -/
structure IFunc where
  name : String
  contentType : TypeRef
  resolver : Value
  deriving DecidableEq, Repr

structure Param where
  type : TypeRef
  ident : Ident
  owner : Option FuncRef
  deriving DecidableEq, Repr

structure Block where
  ident : Ident
  insts : List InstRef
  term : Option TermRef
  owner : Option FuncRef
  deriving DecidableEq, Repr

/-- An instruction with the type of its result, which is kept until it is computed again. -/
structure Inst where
  kind : Instruction
  type : TypeRef
  ident : Ident
  owner : Option BlockRef
  deriving DecidableEq, Repr

structure Term where
  kind : Terminator
  type : TypeRef
  ident : Ident
  owner : Option BlockRef
  deriving DecidableEq, Repr

/-- A constant with its type, which is computed once. -/
structure StoredConstant where
  data : Constant
  type : TypeRef
  deriving DecidableEq, Repr

/-- Order in which the uses of a value are to be listed. -/
structure UseListOrder where
  value : Value
  indices : List Nat
  deriving DecidableEq, Repr

structure UseListOrderBlock where
  func : Value
  block : Value
  indices : List Nat
  deriving DecidableEq, Repr

end IrGraph
