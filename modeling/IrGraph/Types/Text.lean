import IrGraph.Types.Table

/-! Types as text. A component is printed where it stands, so a type whose components were there
before it has a text, and one that contains itself has none. -/

namespace IrGraph.TypeTable

/-- The text of a type with `depth` levels of components at most. -/
def textWithin (t : TypeTable) : Nat → TypeRef → Except Fault String
  | 0, _ => .error .endless
  | depth + 1, r => do
    match ← t.get r with
    | .void => return "void"
    | .label => return "label"
    | .token => return "token"
    | .metadata => return "metadata"
    | .int bits => return "i" ++ toString bits
    | .float format => return keyword format
    | .pointer addrSpace =>
      return if addrSpace = 0 then "ptr" else "ptr addrspace(" ++ toString addrSpace ++ ")"
    | .vector length elem scalable =>
      return (if scalable then "<vscale x " else "<") ++ toString length ++ " x " ++
        (← t.textWithin depth elem) ++ ">"
    | .array length elem =>
      return "[" ++ toString length ++ " x " ++ (← t.textWithin depth elem) ++ "]"
    | .struct fields packed =>
      let inner := ", ".intercalate (← fields.mapM (t.textWithin depth))
      return if packed then "<\x7b " ++ inner ++ " \x7d>" else "\x7b " ++ inner ++ " \x7d"
    | .func result params variadic =>
      let head ← t.textWithin depth result
      let inner ← params.mapM (t.textWithin depth)
      return head ++ " (" ++ ", ".intercalate (if variadic then inner ++ ["..."] else inner) ++ ")"

/-- A type nests no deeper than the table is long. -/
def text (t : TypeTable) (r : TypeRef) : Except Fault String :=
  t.textWithin (t.entries.size + 1) r

end IrGraph.TypeTable
