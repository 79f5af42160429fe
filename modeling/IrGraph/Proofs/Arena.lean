import Mathlib.Data.List.Nodup
import IrGraph.Arena

/-! Arenas seen through their references. Whatever changes entities in place is one map over
references, and what an operation does to a field of the entities follows from that. -/

namespace IrGraph

/-- Changes one member of a family. -/
def onlyAt {ι α : Type} [DecidableEq ι] (i : ι) (f : α → α) (j : ι) (x : α) : α :=
  if j = i then f x else x

theorem apply_onlyAt {ι α β : Type} [DecidableEq ι] {p : α → β} {f : α → α}
    (h : ∀ x, p (f x) = p x) (i j : ι) (x : α) : p (onlyAt i f j x) = p x := by
  unfold onlyAt
  split
  · exact h x
  · rfl

namespace Arena

variable {k : Kind} {α β : Type} {a b : Arena k α} {r s : Ref k} {x y : α}

theorem ext_get? (h : ∀ r, a.get? r = b.get? r) : a = b := by
  obtain ⟨xs⟩ := a
  obtain ⟨ys⟩ := b
  congr 1
  exact Array.ext_getElem? fun i => h ⟨i⟩

theorem index_lt_of_get? (h : a.get? r = some x) : r.index < a.size :=
  (Array.getElem?_eq_some_iff.mp h).1

theorem get?_next (a : Arena k α) : a.get? a.next = none := by
  simp [get?, next, size]

theorem get?_push_of_get? (h : a.get? r = some x) (y : α) : (a.push y).get? r = some x := by
  have hne : r ≠ a.next := by
    rintro rfl
    rw [get?_next] at h
    cases h
  rw [get?_push, if_neg hne, h]

theorem get?_push_next (a : Arena k α) (x : α) : (a.push x).get? a.next = some x := by
  rw [get?_push, if_pos rfl]

theorem set_push_next (a : Arena k α) (x y : α) : (a.push x).set a.next y = a.push y := by
  apply ext_get?
  intro r
  rw [get?_set, get?_push, get?_push]
  by_cases hr : r = a.next
  · simp [hr]
  · rw [if_neg (Ne.symm hr), if_neg hr, if_neg hr]

theorem exists_get?_of_lt (h : r.index < a.size) : ∃ x, a.get? r = some x :=
  ⟨a.items[r.index], Array.getElem?_eq_getElem h⟩

theorem nodup_refs (a : Arena k α) : a.refs.Nodup := by
  refine List.Nodup.map (fun i j h => ?_) List.nodup_range
  injection h

/-- Changes every entity by what its reference says. -/
def mapRefs (φ : Ref k → α → α) (a : Arena k α) : Arena k α :=
  ⟨a.items.mapIdx fun i => φ ⟨i⟩⟩

variable {φ ψ : Ref k → α → α}

@[simp]
theorem get?_mapRefs (a : Arena k α) (φ : Ref k → α → α) (r : Ref k) :
    (a.mapRefs φ).get? r = (a.get? r).map (φ r) := by
  simp [mapRefs, get?]

theorem size_mapRefs (a : Arena k α) (φ : Ref k → α → α) : (a.mapRefs φ).size = a.size := by
  simp [mapRefs, size]

theorem mapRefs_mapRefs (a : Arena k α) :
    (a.mapRefs φ).mapRefs ψ = a.mapRefs fun r x => ψ r (φ r x) := by
  apply ext_get?
  intro r
  cases h : a.get? r <;> simp [h]

theorem mapRefs_congr (h : ∀ r x, a.get? r = some x → φ r x = ψ r x) :
    a.mapRefs φ = a.mapRefs ψ := by
  apply ext_get?
  intro r
  cases hr : a.get? r with
  | none => simp [hr]
  | some x => simp [hr, h r x hr]

theorem mapRefs_eq_self (h : ∀ r x, a.get? r = some x → φ r x = x) : a.mapRefs φ = a := by
  apply ext_get?
  intro r
  cases hr : a.get? r with
  | none => simp [hr]
  | some x => simp [hr, h r x hr]

theorem mapRefs_eq_set (hr : a.get? r = some x) (hy : φ r x = y)
    (h : ∀ s z, s ≠ r → φ s z = z) : a.mapRefs φ = a.set r y := by
  apply ext_get?
  intro s
  rw [get?_set, get?_mapRefs]
  by_cases hs : r = s
  · subst hs
    rw [hr, if_pos rfl, Option.map_some, Option.map_some, hy]
  · have hid : φ s = id := funext fun z => h s z (Ne.symm hs)
    rw [if_neg hs, hid, Option.map_id_apply]

theorem set_eq_mapRefs (a : Arena k α) (f : α → α) (hr : a.get? r = some x) (hy : f x = y) :
    a.set r y = a.mapRefs (onlyAt r f) := by
  have hself : onlyAt r f r x = y := (if_pos rfl).trans hy
  exact (mapRefs_eq_set hr hself fun s z hs => if_neg hs).symm

theorem set_eq_self (hr : a.get? r = some x) : a.set r x = a := by
  apply ext_get?
  intro s
  rw [get?_set]
  by_cases hs : r = s
  · subst hs
    rw [if_pos rfl, hr, Option.map_some]
  · rw [if_neg hs]

theorem modify_of_get? (hr : a.get? r = some x) (f : α → α) : a.modify r f = .ok (a.set r (f x)) := by
  rw [modify, hr]

theorem modify_eq_ok_iff {f : α → α} :
    a.modify r f = .ok b ↔ (∃ x, a.get? r = some x) ∧ b = a.mapRefs (onlyAt r f) := by
  cases hr : a.get? r with
  | none => simp [modify, hr]
  | some x => simp [modify, hr, set_eq_mapRefs a f hr rfl, eq_comm]

/-- What each reference shows of its entity. -/
def view (a : Arena k α) (f : α → β) (r : Ref k) : Option β :=
  (a.get? r).map f

theorem view_eq_some_iff {f : α → β} {z : β} :
    a.view f r = some z ↔ ∃ x, a.get? r = some x ∧ f x = z := by
  simp [view]

theorem view_push (a : Arena k α) (x : α) (f : α → β) :
    (a.push x).view f = Function.update (a.view f) a.next (some (f x)) := by
  funext r
  by_cases hr : r = a.next <;> simp [view, get?_push, hr]

theorem view_mapRefs_of_eq {f : α → β} (h : ∀ r x, f (φ r x) = f x) :
    (a.mapRefs φ).view f = a.view f := by
  funext r
  cases hr : a.get? r <;> simp [view, hr, h]

theorem view_onlyAt_of_eq {f : α → β} {φ : α → α} (h : ∀ x, f (φ x) = f x) (r : Ref k) :
    (a.mapRefs (onlyAt r φ)).view f = a.view f :=
  view_mapRefs_of_eq (apply_onlyAt h r)

theorem view_mapRefs_onlyAt_of_ne {f : α → β} {φ : α → α} (h : s ≠ r) :
    (a.mapRefs (onlyAt r φ)).view f s = a.view f s := by
  cases hs : a.get? s <;> simp [view, hs, onlyAt, h]

/-- What each reference belongs to. -/
def link (a : Arena k α) (owner : α → Option β) (r : Ref k) : Option β :=
  (a.view owner r).join

/-- What belongs to each reference; to one that is not in use, nothing. -/
def members (a : Arena k α) (list : α → List β) (r : Ref k) : List β :=
  (a.view list r).getD []

theorem link_eq_some_iff {owner : α → Option β} {z : β} :
    a.link owner r = some z ↔ ∃ x, a.get? r = some x ∧ owner x = some z := by
  rw [link, Option.join_eq_some_iff, view_eq_some_iff]

theorem link_of_get? {owner : α → Option β} (h : a.get? r = some x) : a.link owner r = owner x := by
  simp [link, view, h]

theorem members_of_get? {list : α → List β} (h : a.get? r = some x) :
    a.members list r = list x := by
  simp [members, view, h]

theorem exists_of_mem_members {list : α → List β} {z : β} (h : z ∈ a.members list r) :
    ∃ x, a.get? r = some x ∧ z ∈ list x := by
  cases hr : a.get? r with
  | none => simp [members, view, hr] at h
  | some x => exact ⟨x, rfl, by simpa [members_of_get? hr] using h⟩

theorem members_push (a : Arena k α) (x : α) (list : α → List β) :
    (a.push x).members list = Function.update (a.members list) a.next (list x) := by
  funext r
  by_cases hr : r = a.next
  · subst hr
    simp [members, view_push]
  · simp [members, view_push, hr]

theorem mem_members_push {list : α → List β} {z : β} (h : z ∈ (a.push x).members list r) :
    z ∈ a.members list r ∨ z ∈ list x := by
  rw [members_push] at h
  by_cases hr : r = a.next
  · subst hr
    rw [Function.update_self] at h
    exact .inr h
  · rw [Function.update_of_ne hr] at h
    exact .inl h

theorem link_mapRefs_of_eq {owner : α → Option β} (h : ∀ r x, owner (φ r x) = owner x) :
    (a.mapRefs φ).link owner = a.link owner := by
  funext r
  rw [link, view_mapRefs_of_eq h, link]

theorem members_mapRefs_of_eq {list : α → List β} (h : ∀ r x, list (φ r x) = list x) :
    (a.mapRefs φ).members list = a.members list := by
  funext r
  rw [members, view_mapRefs_of_eq h, members]

theorem link_onlyAt_of_eq {owner : α → Option β} {f : α → α} (h : ∀ x, owner (f x) = owner x)
    (r : Ref k) : (a.mapRefs (onlyAt r f)).link owner = a.link owner :=
  link_mapRefs_of_eq (apply_onlyAt h r)

theorem members_onlyAt_of_eq {list : α → List β} {f : α → α} (h : ∀ x, list (f x) = list x)
    (r : Ref k) : (a.mapRefs (onlyAt r f)).members list = a.members list :=
  members_mapRefs_of_eq (apply_onlyAt h r)

theorem link_mapRefs_onlyAt {owner : α → Option β} {f : α → α} (hr : a.get? r = some x) :
    (a.mapRefs (onlyAt r f)).link owner = Function.update (a.link owner) r (owner (f x)) := by
  funext s
  by_cases hs : s = r
  · subst hs
    simp [link, view, hr, onlyAt]
  · cases hs' : a.get? s <;> simp [link, view, hs, hs', onlyAt]

theorem link_mapRefs_mem {owner : α → Option β} {f : α → α} {l : List (Ref k)} {z : β}
    (hl : ∀ r ∈ l, ∃ x, a.get? r = some x) (hf : ∀ x, owner (f x) = some z) :
    (a.mapRefs fun r x => if r ∈ l then f x else x).link owner =
      fun r => if r ∈ l then some z else a.link owner r := by
  funext s
  by_cases hs : s ∈ l
  · obtain ⟨x, hx⟩ := hl s hs
    simp [link, view, hs, hx, hf]
  · cases hs' : a.get? s <;> simp [link, view, hs, hs']

theorem members_mapRefs_onlyAt {list : α → List β} {f : α → α} (hr : a.get? r = some x) :
    (a.mapRefs (onlyAt r f)).members list =
      Function.update (a.members list) r (list (f x)) := by
  funext s
  by_cases hs : s = r
  · subst hs
    simp [members, view, hr, onlyAt]
  · cases hs' : a.get? s <;> simp [members, view, hs, hs', onlyAt]

theorem mem_members_onlyAt {list : α → List β} {f : α → α} {z : β}
    (h : z ∈ (a.mapRefs (onlyAt r f)).members list s) :
    z ∈ a.members list s ∨ ∃ x, a.get? r = some x ∧ z ∈ list (f x) := by
  obtain ⟨y, hy, hz⟩ := exists_of_mem_members h
  rw [get?_mapRefs] at hy
  obtain ⟨x, hx, rfl⟩ := Option.map_eq_some_iff.mp hy
  by_cases hs : s = r
  · subst hs
    rw [onlyAt, if_pos rfl] at hz
    exact .inr ⟨x, hx, hz⟩
  · rw [onlyAt, if_neg hs] at hz
    exact .inl (by rwa [members_of_get? hx])

end Arena

end IrGraph
