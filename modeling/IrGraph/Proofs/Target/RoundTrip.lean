import IrGraph.Proofs.Target.Overlay

/-! Layouts that have been read from a descriptor, and what becomes of them when their text is
read again. -/

namespace IrGraph.Layout

/-- The tables of `l` have all the keys of `base`, and `l` has a mangling if `base` has one. -/
structure Covers (l base : Layout) : Prop where
  pointers : l.pointers.Covers base.pointers
  integers : l.integers.Covers base.integers
  vectors : l.vectors.Covers base.vectors
  floats : l.floats.Covers base.floats
  mangling : base.mangling.isSome → l.mangling.isSome

theorem Covers.refl (l : Layout) : l.Covers l :=
  ⟨fun _ h => h, fun _ h => h, fun _ h => h, fun _ h => h, fun h => h⟩

theorem Covers.apply {l base : Layout} (h : l.Covers base) (s : LayoutSpec) :
    (l.apply s).Covers base := by
  cases s with
  | pointer n p => exact { h with pointers := h.pointers.insert n p }
  | integer n a => exact { h with integers := h.integers.insert n a }
  | vector n a => exact { h with vectors := h.vectors.insert n a }
  | float n a => exact { h with floats := h.floats.insert n a }
  | mangling m => exact { h with mangling := fun _ => rfl }
  | _ => exact { h with }

theorem Covers.foldl {l base : Layout} (h : l.Covers base) (specs : List LayoutSpec) :
    (specs.foldl Layout.apply l).Covers base := by
  induction specs generalizing l with
  | nil => exact h
  | cons s specs ih => exact ih (h.apply s)

theorem covers_of_parse {descriptor os arch : String} {l : Layout}
    (h : parse descriptor os arch = .ok l) : l.Covers (default os arch) := by
  unfold parse at h
  cases hs : (splitAtEach '-' descriptor.toList).mapM LayoutSpec.parse with
  | error e => simp [hs, bind, Except.bind] at h
  | ok specs =>
    rw [hs] at h
    cases h
    exact (Covers.refl _).foldl specs

theorem Covers.onto_default {l : Layout} {os arch : String} (h : l.Covers (default os arch)) :
    l.onto (default os arch) =
      { l with
        nativeIntWidths :=
          if l.nativeIntWidths.isEmpty then defaultIntWidths arch else l.nativeIntWidths } := by
  have hmangling : l.mangling.or (defaultMangling os) = l.mangling := by
    cases hl : l.mangling with
    | some m => rfl
    | none =>
      cases hd : defaultMangling os with
      | none => rfl
      | some m => simpa [hl] using h.mangling (by simp [default, hd])
  rw [Layout.onto_default, h.pointers.onto_eq, h.integers.onto_eq, h.vectors.onto_eq,
    h.floats.onto_eq, hmangling]

/-- The text of a layout that was read for a target is read again for that target. The layout
that comes back has the target's native integer widths when the first one had none; else it is
the same. -/
theorem parse_text_of_parse {descriptor os arch : String} {l : Layout}
    (h : parse descriptor os arch = .ok l) :
    parse l.text os arch =
      .ok { l with
        nativeIntWidths :=
          if l.nativeIntWidths.isEmpty then defaultIntWidths arch else l.nativeIntWidths } ∧
      (parse l.text os arch = .ok l ↔ ¬ (arch = "x86-64" ∧ l.nativeIntWidths = [])) := by
  rw [parse_text, (covers_of_parse h).onto_default]
  refine ⟨rfl, ?_⟩
  have hwidths : (if l.nativeIntWidths.isEmpty then defaultIntWidths arch else l.nativeIntWidths) =
      l.nativeIntWidths ↔ ¬ (arch = "x86-64" ∧ l.nativeIntWidths = []) := by
    by_cases hl : l.nativeIntWidths = []
    · by_cases ha : arch = "x86-64" <;> simp [hl, ha, defaultIntWidths]
    · simp [hl]
  rw [← hwidths]
  constructor
  · intro heq
    exact congrArg nativeIntWidths (Except.ok.inj heq)
  · intro heq
    rw [heq]

theorem darwin_parse_text_of_parse :
    ∃ l, parse "E-p:32:32-n8:16" "darwin" "x86-64" = .ok l ∧
      parse l.text "darwin" "x86-64" = .ok l := by
  have hparse : ∃ l, parse "E-p:32:32-n8:16" "darwin" "x86-64" = .ok l ∧
      l.nativeIntWidths = [8, 16] :=
    ⟨_, rfl, rfl⟩
  obtain ⟨l, hl, hwidths⟩ := hparse
  exact ⟨l, hl, (parse_text_of_parse hl).2.mpr (by simp [hwidths])⟩

/-- A list of widths that is given but empty is not written, and the default list comes back. -/
theorem linux_parse_text_ne :
    ∃ l l', parse "n" "linux" "x86-64" = .ok l ∧ parse l.text "linux" "x86-64" = .ok l' ∧
      l.nativeIntWidths = [] ∧ l'.nativeIntWidths = [8, 16, 32, 64] := by
  have hl : parse "n" "linux" "x86-64" =
      .ok { default "linux" "x86-64" with nativeIntWidths := [] } := rfl
  have hagain := (covers_of_parse hl).onto_default
  exact ⟨_, _, hl, by rw [parse_text, hagain], rfl, by simp [defaultIntWidths]⟩

end IrGraph.Layout
