/-! Printed text in which the numbers of metadata nodes are kept apart from the rest, so that
what a text mentions and what it defines can be read off it. -/

namespace IrGraph

inductive Piece
  | text (s : String)
  /-- A node referred to by its number. -/
  | mention (n : Nat)
  /-- The left-hand side of the line that defines a node. -/
  | heading (n : Nat)
  deriving DecidableEq, Repr

def Piece.render : Piece → String
  | .text s => s
  | .mention n => "!" ++ toString n
  | .heading n => "!" ++ toString n ++ " = "

abbrev Doc := List Piece

instance : Coe String Doc := ⟨fun s => [.text s]⟩

namespace Doc

def render (d : Doc) : String :=
  String.join (d.map Piece.render)

/-- The documents one after another, with `separator` between neighbours. -/
def join (separator : String) : List Doc → Doc
  | [] => []
  | [d] => d
  | d :: ds => d ++ [.text separator] ++ join separator ds

def commaSep (ds : List Doc) : Doc :=
  join ", " ds

theorem render_append (d e : Doc) : render (d ++ e) = render d ++ render e := by
  apply String.toList_inj.mp
  simp [render]

end Doc

end IrGraph
