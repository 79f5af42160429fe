import IrGraph.Text.Escape

/-! Names of values. A plain name is printed as it is, any other in quotes; a local value that
has no name is printed by its number. -/

namespace IrGraph

def isBareChar (c : Char) : Bool :=
  c.isAlphanum || c == '_' || c == '.' || c == '$' || c == '-'

/-- A name that needs no quotes: ASCII letters, digits and `_ . $ -`, with a first character
that is no digit. -/
def isBareName (name : String) : Bool :=
  match name.toList with
  | [] => false
  | c :: rest => !c.isDigit && isBareChar c && rest.all isBareChar

def quoted (s : String) : String :=
  "\"" ++ escapeText s ++ "\""

def nameText (name : String) : String :=
  if isBareName name then name else quoted name

/-- Identifier of a local value: the name its author gave it, and the number that numbering
handed out. -/
structure Ident where
  name : Option String
  id : Option Nat
  deriving DecidableEq, Repr, Inhabited

namespace Ident

def anonymous : Ident := ⟨none, none⟩

def isUnnamed (i : Ident) : Bool :=
  i.name.isNone

/-- Gives or takes the name; a number handed out earlier is dropped. -/
def rename (_ : Ident) (name : Option String) : Ident :=
  ⟨name, none⟩

def dropNumber (i : Ident) : Ident :=
  if i.isUnnamed then anonymous else i

/-- The name if there is one, else the number, else a question mark. -/
def text (i : Ident) : String :=
  match i.name, i.id with
  | some name, _ => nameText name
  | none, some id => toString id
  | none, none => "?"

end Ident

end IrGraph
