import IrGraph.Print.Operand

/-! Definitions of metadata nodes as text. -/

namespace IrGraph.Graph

/-- A node where another one lists it: strings, values and null as they are, any other node by
its number. -/
def metadataDoc (g : Graph) (m : MetadataRef) : Except Fault Doc :=
  g.operandDoc (.metadata m)

def metadataListDoc (g : Graph) (nodes : List MetadataRef) : Except Fault Doc :=
  return "!\x7b" ++ Doc.commaSep (← nodes.mapM g.metadataDoc) ++ "\x7d"

def fieldValueDoc (g : Graph) : FieldValue → Except Fault Doc
  | .ref m => g.metadataDoc m
  | .string s => return quoted s
  | .enum s => return s
  | .int n => return toString n
  | .uint n => return toString n
  | .bool b => return if b then "true" else "false"

def fieldDoc (g : Graph) (f : Field) : Except Fault Doc :=
  return f.1 ++ ": " ++ (← g.fieldValueDoc f.2)

/-- The operands of a generic node behind its fields, nothing if there are none. -/
def genericOperandsDoc (g : Graph) (operands : List MetadataRef) : Except Fault Doc := do
  if operands.isEmpty then return []
  return ", operands: " ++ (← g.metadataListDoc operands)

def entriesDoc (g : Graph) (n : MetadataNode) : Except Fault Doc := do
  match n with
  | .expression e => return ", ".intercalate e.elements
  | .generic d =>
    return Doc.commaSep (← n.fields.mapM g.fieldDoc) ++ (← g.genericOperandsDoc d.operands)
  | _ => return Doc.commaSep (← n.fields.mapM g.fieldDoc)

/-- The right-hand side of a definition; strings, values and null have none. -/
def definitionDoc? (g : Graph) (n : MetadataNode) : Except Fault (Option Doc) := do
  match n.specialName? with
  | some name => return some ("!" ++ name ++ "(" ++ (← g.entriesDoc n) ++ ")")
  | none =>
    match n with
    | .tuple nodes => return some (← g.metadataListDoc nodes)
    | _ => return none

def definitionLine? (g : Graph) (m : MetadataRef) (n : MetadataNode) :
    Except Fault (Option Doc) :=
  return (← g.definitionDoc? n).map ([.heading m.index] ++ ·)

def namedMetadataLine (n : NamedMetadata) : Doc :=
  "!" ++ n.name ++ " = !\x7b" ++ Doc.commaSep (n.nodes.map fun m => [.mention m.index]) ++ "\x7d"

end IrGraph.Graph
