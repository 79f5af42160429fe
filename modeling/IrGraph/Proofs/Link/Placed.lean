import Mathlib.Data.List.Nodup
import Mathlib.Logic.Function.Basic

/-! Lists of members and the owners that the members name, kept in step. -/

namespace IrGraph

/-- A list names exactly those who name it as their owner, and each of them once. -/
structure Placed {ι κ : Type} (members : κ → List ι) (owner : ι → Option κ) : Prop where
  mem_iff : ∀ c x, x ∈ members c ↔ owner x = some c
  nodup : ∀ c, (members c).Nodup

namespace Placed

variable {ι κ : Type} {members : κ → List ι} {owner : ι → Option κ} {c : κ} {x : ι}

theorem nodup_flatMap (h : Placed members owner) {l : List κ} (hl : l.Nodup) :
    (l.flatMap members).Nodup := by
  rw [List.nodup_flatMap]
  refine ⟨fun c _ => h.nodup c, hl.imp ?_⟩
  intro c d hcd x hc hd
  rw [h.mem_iff] at hc hd
  exact hcd (Option.some.inj (hc.symm.trans hd))

variable [DecidableEq ι] [DecidableEq κ]

theorem attach (h : Placed members owner) {xs l : List ι} (hxs : xs.Nodup)
    (hfree : ∀ x ∈ xs, owner x = none) (hl : l.Perm (xs ++ members c)) :
    Placed (Function.update members c l) fun x => if x ∈ xs then some c else owner x where
  mem_iff d y := by
    by_cases hd : d = c
    · subst hd
      rw [Function.update_self, hl.mem_iff, List.mem_append, h.mem_iff]
      by_cases hy : y ∈ xs <;> simp [hy]
    · rw [Function.update_of_ne hd, h.mem_iff]
      by_cases hy : y ∈ xs
      · simp [hy, hfree y hy, Ne.symm hd]
      · simp [hy]
  nodup d := by
    by_cases hd : d = c
    · subst hd
      rw [Function.update_self, hl.nodup_iff, List.nodup_append]
      refine ⟨hxs, h.nodup d, ?_⟩
      rintro y hy z hz rfl
      rw [h.mem_iff, hfree y hy] at hz
      cases hz
    · rw [Function.update_of_ne hd]
      exact h.nodup d

theorem attach_one (h : Placed members owner) {l : List ι} (hfree : owner x = none)
    (hl : l.Perm (x :: members c)) :
    Placed (Function.update members c l) (Function.update owner x (some c)) := by
  have hone := h.attach (c := c) (List.nodup_singleton x) (by simpa using hfree) hl
  have howner : (fun y => if y ∈ [x] then some c else owner y) =
      Function.update owner x (some c) := by
    funext y
    by_cases hy : y = x <;> simp [hy]
  rwa [howner] at hone

/-- A new list of one member, which was free or in the old list; the rest of that list is free. -/
theorem exchange (h : Placed members owner) (hx : owner x = none ∨ owner x = some c) :
    Placed (Function.update members c [x])
      fun y => if y = x then some c else if y ∈ members c then none else owner y where
  mem_iff d y := by
    by_cases hd : d = c
    · subst hd
      by_cases hy : y = x
      · simp [hy]
      · by_cases hmem : y ∈ members d
        · simp [hy, hmem]
        · have hown : owner y ≠ some d := fun hown => hmem ((h.mem_iff d y).mpr hown)
          simp [hy, hmem, hown]
    · rw [Function.update_of_ne hd, h.mem_iff]
      by_cases hy : y = x
      · subst hy
        rcases hx with hx | hx <;> simp [hx, Ne.symm hd]
      · by_cases hmem : y ∈ members c
        · have hown : owner y = some c := (h.mem_iff c y).mp hmem
          simp [hy, hmem, hown, Ne.symm hd]
        · simp [hy, hmem]
  nodup d := by
    by_cases hd : d = c
    · subst hd
      rw [Function.update_self]
      exact List.nodup_singleton x
    · rw [Function.update_of_ne hd]
      exact h.nodup d

/-- Taking `x` out of a list; it loses its owner if it was in there. -/
theorem detach (h : Placed members owner) :
    Placed (Function.update members c ((members c).filter (· ≠ x)))
      (Function.update owner x (if owner x = some c then none else owner x)) where
  mem_iff d y := by
    have hmem := h.mem_iff d y
    by_cases hd : d = c
    · subst hd
      by_cases hy : y = x
      · subst hy
        by_cases hown : owner y = some d <;> simp [hown]
      · simp [hy, hmem]
    · by_cases hy : y = x
      · subst hy
        by_cases hown : owner y = some c
        · simp [hd, hmem, hown, Ne.symm hd]
        · simp [hd, hmem, hown]
      · simp [hd, hy, hmem]
  nodup d := by
    by_cases hd : d = c
    · subst hd
      rw [Function.update_self]
      exact (h.nodup d).filter _
    · rw [Function.update_of_ne hd]
      exact h.nodup d

end Placed

end IrGraph
