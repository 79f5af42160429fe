import IrGraph.Proofs.Edit.Run

/-! Tables of types in which everything refers back. Asking such a table for a type whose components
it has gives a table of the same sort, which still has all that it had; so does computing the type
of an instruction or a constant. -/

namespace IrGraph

namespace TypeTable

/-- The components of a type come before it. -/
def Ordered (t : TypeTable) : Prop :=
  ∀ i (h : i < t.entries.size), ∀ c ∈ t.entries[i].components, c.index < i

instance (t : TypeTable) : Decidable t.Ordered :=
  inferInstanceAs (Decidable (∀ _ _, _))

/-- The first types are there, and what the table refers to is in it. -/
structure Closed (t : TypeTable) : Prop where
  initial : 5 ≤ t.entries.size
  index : ∀ p ∈ t.index, t.Has p.2
  ordered : t.Ordered

/-- A closed table that has what the table before had, and `r`. -/
structure Adds (t t' : TypeTable) (r : TypeRef) : Prop where
  closed : t'.Closed
  kept : ∀ s, t.Has s → t'.Has s
  has : t'.Has r

variable {t t' t'' : TypeTable} {r s : TypeRef} {type : IrType}

theorem has_of_get? (h : t.get? r = some type) : t.Has r :=
  (Array.getElem?_eq_some_iff.mp h).1

theorem Has.isVoid (h : t.Has r) : t.isVoid r = .ok (decide (t.get? r = some .void)) := by
  have hget : t.get? r = some t.entries[r.index] := Array.getElem?_eq_getElem h
  rw [TypeTable.isVoid, get_eq_ok_iff.mpr hget, hget]
  simp [bind, Except.bind, pure, Except.pure, Bool.beq_eq_decide_eq]

namespace Ordered

theorem lt_of_mem (h : t.Ordered) (hr : t.get? r = some type) (hs : s ∈ type.components) :
    s.index < r.index := by
  obtain ⟨hlt, rfl⟩ := Array.getElem?_eq_some_iff.mp hr
  exact h r.index hlt s hs

theorem has_component (h : t.Ordered) (hr : t.get? r = some type) (hs : s ∈ type.components) :
    t.Has s :=
  Nat.lt_trans (h.lt_of_mem hr hs) (has_of_get? hr)

theorem push (h : t.Ordered) (hc : ∀ c ∈ type.components, t.Has c)
    (index : List (IrType × TypeRef)) : Ordered ⟨t.entries.push type, index⟩ := by
  intro i hi c hcomp
  rw [Array.getElem_push] at hcomp
  split at hcomp
  case isTrue hlt => exact h i hlt c hcomp
  case isFalse hge => exact Nat.lt_of_lt_of_le (hc c hcomp) (Nat.le_of_not_lt hge)

end Ordered

theorem closed_initial : TypeTable.initial.Closed where
  initial := by decide
  index := by decide
  ordered := by decide

namespace Closed

theorem adds (h : t.Closed) (hr : t.Has r) : t.Adds t r :=
  ⟨h, fun _ hs => hs, hr⟩

theorem has_component (h : t.Closed) (hr : t.get? r = some type) (hs : s ∈ type.components) :
    t.Has s :=
  h.ordered.has_component hr hs

theorem intern (h : t.Closed) (hc : ∀ c ∈ type.components, t.Has c)
    (hr : t.intern type = (r, t')) : t.Adds t' r := by
  unfold TypeTable.intern at hr
  split at hr
  · rename_i found hfound
    cases hr
    obtain ⟨before, after, hindex, -⟩ := List.lookup_eq_some_iff.mp hfound
    exact h.adds (h.index (type, r) (by simp [hindex]))
  · cases hr
    have hkept (s : TypeRef) (hs : t.Has s) : s.index < (t.entries.push type).size := by
      rw [Array.size_push]
      exact Nat.lt_succ_of_lt hs
    have hnew : t.entries.size < (t.entries.push type).size := by
      rw [Array.size_push]
      exact Nat.lt_succ_self _
    refine ⟨⟨Nat.le_trans h.initial (Nat.le_of_lt hnew), ?_, h.ordered.push hc _⟩, hkept, hnew⟩
    rintro p hp
    rcases List.mem_cons.mp hp with rfl | hp
    · exact hnew
    · exact hkept _ (h.index p hp)

end Closed

theorem Adds.trans (h : t.Adds t' r) (h' : t'.Adds t'' s) : t.Adds t'' s :=
  ⟨h'.closed, fun s hs => h'.kept s (h.kept s hs), h'.has⟩

end TypeTable

end IrGraph
