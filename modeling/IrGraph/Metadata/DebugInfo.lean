import IrGraph.Reference

/-! Records of debug information. Their references to one another may form cycles: a scope names
its parent, a composite type lists members that name the type. -/

namespace IrGraph.DebugInfo

structure BasicType where
  name : String
  sizeBits : Nat
  encoding : String
  deriving DecidableEq, Repr

structure CommonBlock where
  scope : Option MetadataRef
  declaration : Option MetadataRef
  name : String
  file : Option MetadataRef
  line : Nat
  deriving DecidableEq, Repr

structure CompileUnit where
  language : String
  file : Option MetadataRef
  producer : String
  enums : Option MetadataRef
  retainedTypes : Option MetadataRef
  globals : Option MetadataRef
  imports : Option MetadataRef
  macros : Option MetadataRef
  deriving DecidableEq, Repr

structure CompositeType where
  tag : String
  name : String
  scope : Option MetadataRef
  file : Option MetadataRef
  line : Nat
  baseType : Option MetadataRef
  sizeBits : Nat
  elements : Option MetadataRef
  vtableHolder : Option MetadataRef
  templateParams : Option MetadataRef
  identifier : String
  discriminator : Option MetadataRef
  deriving DecidableEq, Repr

structure DerivedType where
  tag : String
  name : String
  scope : Option MetadataRef
  file : Option MetadataRef
  line : Nat
  baseType : Option MetadataRef
  sizeBits : Nat
  extraData : Option MetadataRef
  deriving DecidableEq, Repr

structure Enumerator where
  name : String
  value : Int
  isUnsigned : Bool
  deriving DecidableEq, Repr

structure Expression where
  elements : List String
  deriving DecidableEq, Repr

structure File where
  filename : String
  directory : String
  deriving DecidableEq, Repr

structure GlobalVariable where
  name : String
  scope : Option MetadataRef
  file : Option MetadataRef
  line : Nat
  type : Option MetadataRef
  isLocal : Bool
  isDefinition : Bool
  templateParams : Option MetadataRef
  declaration : Option MetadataRef
  deriving DecidableEq, Repr

structure GlobalVariableExpression where
  var : Option MetadataRef
  expr : Option MetadataRef
  deriving DecidableEq, Repr

structure ImportedEntity where
  tag : String
  scope : Option MetadataRef
  entity : Option MetadataRef
  file : Option MetadataRef
  line : Nat
  name : String
  deriving DecidableEq, Repr

structure Label where
  scope : Option MetadataRef
  name : String
  file : Option MetadataRef
  line : Nat
  deriving DecidableEq, Repr

structure LexicalBlock where
  scope : Option MetadataRef
  file : Option MetadataRef
  line : Nat
  column : Nat
  deriving DecidableEq, Repr

structure LexicalBlockFile where
  scope : Option MetadataRef
  file : Option MetadataRef
  discriminator : Nat
  deriving DecidableEq, Repr

structure LocalVariable where
  name : String
  arg : Nat
  scope : Option MetadataRef
  file : Option MetadataRef
  line : Nat
  type : Option MetadataRef
  deriving DecidableEq, Repr

structure Location where
  line : Nat
  column : Nat
  scope : Option MetadataRef
  inlinedAt : Option MetadataRef
  deriving DecidableEq, Repr

structure MacroDef where
  macinfoType : String
  line : Nat
  name : String
  value : String
  deriving DecidableEq, Repr

structure MacroFile where
  line : Nat
  file : Option MetadataRef
  nodes : Option MetadataRef
  deriving DecidableEq, Repr

structure Module where
  scope : Option MetadataRef
  name : String
  includePath : String
  deriving DecidableEq, Repr

structure NamespaceDef where
  scope : Option MetadataRef
  name : String
  exportSymbols : Bool
  deriving DecidableEq, Repr

structure ObjCProperty where
  name : String
  file : Option MetadataRef
  line : Nat
  type : Option MetadataRef
  deriving DecidableEq, Repr

structure Subprogram where
  scope : Option MetadataRef
  name : String
  linkageName : String
  file : Option MetadataRef
  line : Nat
  type : Option MetadataRef
  containingType : Option MetadataRef
  unit : Option MetadataRef
  templateParams : Option MetadataRef
  declaration : Option MetadataRef
  retainedNodes : Option MetadataRef
  thrownTypes : Option MetadataRef
  deriving DecidableEq, Repr

structure Subrange where
  count : Option MetadataRef
  lowerBound : Int
  deriving DecidableEq, Repr

structure SubroutineType where
  types : Option MetadataRef
  deriving DecidableEq, Repr

structure TemplateTypeParameter where
  name : String
  type : Option MetadataRef
  deriving DecidableEq, Repr

structure TemplateValueParameter where
  name : String
  type : Option MetadataRef
  value : Option MetadataRef
  deriving DecidableEq, Repr

structure Generic where
  tag : String
  header : String
  operands : List MetadataRef
  deriving DecidableEq, Repr

end IrGraph.DebugInfo
