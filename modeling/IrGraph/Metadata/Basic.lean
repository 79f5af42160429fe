import IrGraph.Metadata.DebugInfo

/-! Metadata nodes, and what the definition of a node lists of it. -/

namespace IrGraph

inductive MetadataNode
  | tuple (nodes : List MetadataRef)
  /-- A value wrapped as metadata. -/
  | value (v : Value)
  | string (s : String)
  | null
  | basicType (n : DebugInfo.BasicType)
  | commonBlock (n : DebugInfo.CommonBlock)
  | compileUnit (n : DebugInfo.CompileUnit)
  | compositeType (n : DebugInfo.CompositeType)
  | derivedType (n : DebugInfo.DerivedType)
  | enumerator (n : DebugInfo.Enumerator)
  | expression (n : DebugInfo.Expression)
  | file (n : DebugInfo.File)
  | globalVariable (n : DebugInfo.GlobalVariable)
  | globalVariableExpression (n : DebugInfo.GlobalVariableExpression)
  | importedEntity (n : DebugInfo.ImportedEntity)
  | label (n : DebugInfo.Label)
  | lexicalBlock (n : DebugInfo.LexicalBlock)
  | lexicalBlockFile (n : DebugInfo.LexicalBlockFile)
  | localVariable (n : DebugInfo.LocalVariable)
  | location (n : DebugInfo.Location)
  | macroDef (n : DebugInfo.MacroDef)
  | macroFile (n : DebugInfo.MacroFile)
  | module (n : DebugInfo.Module)
  | namespaceDef (n : DebugInfo.NamespaceDef)
  | objCProperty (n : DebugInfo.ObjCProperty)
  | subprogram (n : DebugInfo.Subprogram)
  | subrange (n : DebugInfo.Subrange)
  | subroutineType (n : DebugInfo.SubroutineType)
  | templateTypeParameter (n : DebugInfo.TemplateTypeParameter)
  | templateValueParameter (n : DebugInfo.TemplateValueParameter)
  | generic (n : DebugInfo.Generic)
  deriving DecidableEq, Repr

/-- Nodes under a name of their own. -/
structure NamedMetadata where
  name : String
  nodes : List MetadataRef
  deriving DecidableEq, Repr

inductive FieldValue
  | ref (m : MetadataRef)
  /-- Text in quotes. -/
  | string (s : String)
  /-- A word that stands without quotes. -/
  | enum (s : String)
  | int (n : Int)
  | uint (n : Nat)
  | bool (b : Bool)
  deriving DecidableEq, Repr

/-- A key of a definition and what stands after it. -/
abbrev Field := String × FieldValue

namespace Field

def ref (key : String) (m : Option MetadataRef) : List Field :=
  m.toList.map fun m => (key, .ref m)

def string (key s : String) : List Field :=
  if s = "" then [] else [(key, .string s)]

def enum (key s : String) : List Field :=
  if s = "" then [] else [(key, .enum s)]

def uint (key : String) (n : Nat) : List Field :=
  if n = 0 then [] else [(key, .uint n)]

def int (key : String) (n : Int) : List Field :=
  if n = 0 then [] else [(key, .int n)]

def flag (key : String) (b : Bool) : List Field :=
  if b then [(key, .bool true)] else []

end Field

namespace MetadataNode

/-- Keyword of a specialised node; tuples, values, strings and null have none. -/
def specialName? : MetadataNode → Option String
  | tuple _ | value _ | string _ | null => none
  | basicType _ => some "DIBasicType"
  | commonBlock _ => some "DICommonBlock"
  | compileUnit _ => some "DICompileUnit"
  | compositeType _ => some "DICompositeType"
  | derivedType _ => some "DIDerivedType"
  | enumerator _ => some "DIEnumerator"
  | expression _ => some "DIExpression"
  | file _ => some "DIFile"
  | globalVariable _ => some "DIGlobalVariable"
  | globalVariableExpression _ => some "DIGlobalVariableExpression"
  | importedEntity _ => some "DIImportedEntity"
  | label _ => some "DILabel"
  | lexicalBlock _ => some "DILexicalBlock"
  | lexicalBlockFile _ => some "DILexicalBlockFile"
  | localVariable _ => some "DILocalVariable"
  | location _ => some "DILocation"
  | macroDef _ => some "DIMacro"
  | macroFile _ => some "DIMacroFile"
  | module _ => some "DIModule"
  | namespaceDef _ => some "DINamespace"
  | objCProperty _ => some "DIObjCProperty"
  | subprogram _ => some "DISubprogram"
  | subrange _ => some "DISubrange"
  | subroutineType _ => some "DISubroutineType"
  | templateTypeParameter _ => some "DITemplateTypeParameter"
  | templateValueParameter _ => some "DITemplateValueParameter"
  | generic _ => some "GenericDINode"

/-- The fields of a specialised node in the order of its definition, without the empty ones. The
elements of an expression and the operands of a generic node stand apart from the fields. -/
def fields : MetadataNode → List Field
  | tuple _ | value _ | string _ | null | expression _ => []
  | basicType n =>
    Field.string "name" n.name ++ Field.uint "size" n.sizeBits ++
    Field.enum "encoding" n.encoding
  | commonBlock n =>
    Field.ref "scope" n.scope ++ Field.ref "declaration" n.declaration ++
    Field.string "name" n.name ++ Field.ref "file" n.file ++ Field.uint "line" n.line
  | compileUnit n =>
    Field.enum "language" n.language ++ Field.ref "file" n.file ++
    Field.string "producer" n.producer ++ Field.ref "enums" n.enums ++
    Field.ref "retainedTypes" n.retainedTypes ++ Field.ref "globals" n.globals ++
    Field.ref "imports" n.imports ++ Field.ref "macros" n.macros
  | compositeType n =>
    Field.enum "tag" n.tag ++ Field.string "name" n.name ++ Field.ref "scope" n.scope ++
    Field.ref "file" n.file ++ Field.uint "line" n.line ++ Field.ref "baseType" n.baseType ++
    Field.uint "size" n.sizeBits ++ Field.ref "elements" n.elements ++
    Field.ref "vtableHolder" n.vtableHolder ++ Field.ref "templateParams" n.templateParams ++
    Field.string "identifier" n.identifier ++ Field.ref "discriminator" n.discriminator
  | derivedType n =>
    Field.enum "tag" n.tag ++ Field.string "name" n.name ++ Field.ref "scope" n.scope ++
    Field.ref "file" n.file ++ Field.uint "line" n.line ++ Field.ref "baseType" n.baseType ++
    Field.uint "size" n.sizeBits ++ Field.ref "extraData" n.extraData
  | enumerator n =>
    Field.string "name" n.name ++ [("value", .int n.value)] ++
    Field.flag "isUnsigned" n.isUnsigned
  | file n =>
    [("filename", .string n.filename)] ++ [("directory", .string n.directory)]
  | globalVariable n =>
    Field.string "name" n.name ++ Field.ref "scope" n.scope ++ Field.ref "file" n.file ++
    Field.uint "line" n.line ++ Field.ref "type" n.type ++ Field.flag "isLocal" n.isLocal ++
    Field.flag "isDefinition" n.isDefinition ++ Field.ref "templateParams" n.templateParams ++
    Field.ref "declaration" n.declaration
  | globalVariableExpression n =>
    Field.ref "var" n.var ++ Field.ref "expr" n.expr
  | importedEntity n =>
    Field.enum "tag" n.tag ++ Field.ref "scope" n.scope ++ Field.ref "entity" n.entity ++
    Field.ref "file" n.file ++ Field.uint "line" n.line ++ Field.string "name" n.name
  | label n =>
    Field.ref "scope" n.scope ++ Field.string "name" n.name ++ Field.ref "file" n.file ++
    Field.uint "line" n.line
  | lexicalBlock n =>
    Field.ref "scope" n.scope ++ Field.ref "file" n.file ++ Field.uint "line" n.line ++
    Field.uint "column" n.column
  | lexicalBlockFile n =>
    Field.ref "scope" n.scope ++ Field.ref "file" n.file ++
    [("discriminator", .uint n.discriminator)]
  | localVariable n =>
    Field.string "name" n.name ++ Field.uint "arg" n.arg ++ Field.ref "scope" n.scope ++
    Field.ref "file" n.file ++ Field.uint "line" n.line ++ Field.ref "type" n.type
  | location n =>
    [("line", .uint n.line)] ++ Field.uint "column" n.column ++ Field.ref "scope" n.scope ++
    Field.ref "inlinedAt" n.inlinedAt
  | macroDef n =>
    Field.enum "type" n.macinfoType ++ Field.uint "line" n.line ++ Field.string "name" n.name ++
    Field.string "value" n.value
  | macroFile n =>
    Field.uint "line" n.line ++ Field.ref "file" n.file ++ Field.ref "nodes" n.nodes
  | module n =>
    Field.ref "scope" n.scope ++ Field.string "name" n.name ++
    Field.string "includePath" n.includePath
  | namespaceDef n =>
    Field.ref "scope" n.scope ++ Field.string "name" n.name ++
    Field.flag "exportSymbols" n.exportSymbols
  | objCProperty n =>
    Field.string "name" n.name ++ Field.ref "file" n.file ++ Field.uint "line" n.line ++
    Field.ref "type" n.type
  | subprogram n =>
    Field.ref "scope" n.scope ++ Field.string "name" n.name ++
    Field.string "linkageName" n.linkageName ++ Field.ref "file" n.file ++
    Field.uint "line" n.line ++ Field.ref "type" n.type ++
    Field.ref "containingType" n.containingType ++ Field.ref "unit" n.unit ++
    Field.ref "templateParams" n.templateParams ++ Field.ref "declaration" n.declaration ++
    Field.ref "retainedNodes" n.retainedNodes ++ Field.ref "thrownTypes" n.thrownTypes
  | subrange n =>
    Field.ref "count" n.count ++ Field.int "lowerBound" n.lowerBound
  | subroutineType n =>
    Field.ref "types" n.types
  | templateTypeParameter n =>
    Field.string "name" n.name ++ Field.ref "type" n.type
  | templateValueParameter n =>
    Field.string "name" n.name ++ Field.ref "type" n.type ++ Field.ref "value" n.value
  | generic n =>
    Field.enum "tag" n.tag ++ Field.string "header" n.header

/-- The nodes that a walk finds below a node. -/
def children : MetadataNode → List Node
  | tuple nodes => nodes.map (·.node)
  | value v => [v.node]
  | string _ | null => []
  | basicType _ | enumerator _ | expression _ | file _ | macroDef _ => []
  | commonBlock n => present [n.scope, n.declaration, n.file]
  | compileUnit n => present [n.file, n.enums, n.retainedTypes, n.globals, n.imports, n.macros]
  | compositeType n =>
    present [n.scope, n.file, n.baseType, n.elements, n.vtableHolder, n.templateParams,
      n.discriminator]
  | derivedType n => present [n.scope, n.file, n.baseType, n.extraData]
  | globalVariable n => present [n.scope, n.file, n.type, n.templateParams, n.declaration]
  | globalVariableExpression n => present [n.var, n.expr]
  | importedEntity n => present [n.scope, n.entity, n.file]
  | label n => present [n.scope, n.file]
  | lexicalBlock n => present [n.scope, n.file]
  | lexicalBlockFile n => present [n.scope, n.file]
  | localVariable n => present [n.scope, n.file, n.type]
  | location n => present [n.scope, n.inlinedAt]
  | macroFile n => present [n.file, n.nodes]
  | module n => present [n.scope]
  | namespaceDef n => present [n.scope]
  | objCProperty n => present [n.file, n.type]
  | subprogram n =>
    present [n.scope, n.file, n.type, n.containingType, n.unit, n.templateParams, n.declaration,
      n.retainedNodes, n.thrownTypes]
  | subrange n => present [n.count]
  | subroutineType n => present [n.types]
  | templateTypeParameter n => present [n.type]
  | templateValueParameter n => present [n.type, n.value]
  | generic n => n.operands.map (·.node)
where
  present (refs : List (Option MetadataRef)) : List Node :=
    (refs.filterMap id).map (·.node)

end MetadataNode

end IrGraph
