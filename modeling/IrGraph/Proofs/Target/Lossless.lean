import IrGraph.Proofs.Target.Overlay

/-! The text of a layout loses nothing of it. Laid over a layout that says as little as can be said,
and not over the defaults of a target, what the text leaves out is zero, absent or empty again. -/

namespace IrGraph

theorem Table.onto_empty {α : Type} (t : Table α) : t.onto .empty = t := by
  have hcovers : t.Covers .empty := by
    intro key hkey
    cases hkey
  exact hcovers.onto_eq

namespace Layout

/-- No rows and no settings, and zero for every number. -/
def blank : Layout where
  bigEndian := true
  stackAlignment := 0
  programAddrSpace := 0
  globalAddrSpace := 0
  allocaAddrSpace := 0
  pointers := .empty
  integers := .empty
  vectors := .empty
  floats := .empty
  aggregate := ⟨0, 0⟩
  functionPointer := none
  mangling := none
  nativeIntWidths := []
  nonIntegralAddrSpaces := []

/-- Reads a descriptor without the defaults of a target. -/
def ofText (descriptor : String) : Except LayoutError Layout := do
  let specs ← (splitAtEach '-' descriptor.toList).mapM LayoutSpec.parse
  return specs.foldl apply blank

theorem onto_blank (l : Layout) : l.onto blank = l := by
  simp only [onto, blank, scalar_or_zero, list_or_nil, Table.onto_empty, Option.or_none]

theorem ofText_text (l : Layout) : ofText l.text = .ok l := by
  calc ofText l.text
      = .ok (l.specs.foldl apply { blank with bigEndian := l.bigEndian }) := by
        rw [ofText, toList_text, LayoutSpec.mapM_parse_split]
        simp only [bind, Except.bind, pure, Except.pure, List.foldl_cons, apply]
    _ = .ok (l.onto blank) := by rw [foldl_specs]
    _ = .ok l := by rw [onto_blank]

/-- Layouts that are written alike are alike in every field. -/
theorem text_inj (l l' : Layout) : l.text = l'.text ↔ l = l' := by
  constructor
  · intro h
    have hread : (Except.ok l : Except LayoutError Layout) = .ok l' := by
      rw [← ofText_text l, h, ofText_text l']
    exact Except.ok.inj hread
  · rintro rfl
    rfl

end Layout

end IrGraph
