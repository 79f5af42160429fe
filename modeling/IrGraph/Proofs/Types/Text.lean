import IrGraph.Types.Text
import IrGraph.Proofs.Types.Closed

/-! Types that have a text. A type can be printed when its components can, and how many levels are
allowed for does not matter as long as there are enough. -/

namespace IrGraph.TypeTable

variable {t : TypeTable} {r : TypeRef} {s : String} {depth : Nat}

/-- One level of a text asks for the components of the type, and for nothing else. -/
theorem exists_textWithin_succ_iff :
    (∃ s, t.textWithin (depth + 1) r = .ok s) ↔
      ∃ type, t.get? r = some type ∧ ∀ c ∈ type.components, ∃ s, t.textWithin depth c = .ok s := by
  rw [textWithin, exists_bind_eq_ok_iff]
  simp only [get_eq_ok_iff]
  refine exists_congr fun type => and_congr_right fun _ => ?_
  cases type with
  | vector | array =>
    simp only [exists_bind_eq_ok_iff, exists_pure_eq_ok, and_true, IrType.components,
      List.forall_mem_singleton]
  | struct =>
    simp only [exists_bind_eq_ok_iff, exists_pure_eq_ok, and_true, IrType.components,
      exists_mapM_eq_ok_iff]
  | func =>
    simp only [exists_bind_eq_ok_iff, exists_pure_eq_ok, and_true, exists_and_right,
      IrType.components, List.forall_mem_cons, exists_mapM_eq_ok_iff]
  | _ => simp only [exists_pure_eq_ok, IrType.components, List.not_mem_nil, false_implies,
      implies_true]

theorem textWithin_succ (h : t.textWithin depth r = .ok s) :
    t.textWithin (depth + 1) r = .ok s := by
  induction depth generalizing r s with
  | zero => cases h
  | succ depth ih =>
    have hlist {l : List TypeRef} {texts : List String}
        (hl : l.mapM (t.textWithin depth) = .ok texts) :
        l.mapM (t.textWithin (depth + 1)) = .ok texts := mapM_mono (fun _ _ _ => ih) hl
    rw [textWithin, bind_eq_ok_iff] at h ⊢
    obtain ⟨type, htype, h⟩ := h
    refine ⟨type, htype, ?_⟩
    cases type with
    | vector | array =>
      simp only [bind_eq_ok_iff] at h ⊢
      obtain ⟨inner, hinner, h⟩ := h
      exact ⟨inner, ih hinner, h⟩
    | struct =>
      simp only [bind_eq_ok_iff] at h ⊢
      obtain ⟨inner, hinner, h⟩ := h
      exact ⟨inner, hlist hinner, h⟩
    | func =>
      simp only [bind_eq_ok_iff] at h ⊢
      obtain ⟨head, hhead, inner, hinner, h⟩ := h
      exact ⟨head, ih hhead, inner, hlist hinner, h⟩
    | _ => exact h

theorem textWithin_of_le {depth' : Nat} (hle : depth ≤ depth') (h : t.textWithin depth r = .ok s) :
    t.textWithin depth' r = .ok s := by
  induction hle with
  | refl => exact h
  | step _ ih => exact textWithin_succ ih

/-- Where components come first, as many levels as there are types before do. -/
theorem Ordered.exists_textWithin (h : t.Ordered) (hr : t.Has r) :
    ∃ s, ∀ depth, r.index < depth → t.textWithin depth r = .ok s := by
  obtain ⟨s, hs⟩ : ∃ s, t.textWithin (r.index + 1) r = .ok s := by
    generalize hi : r.index = i
    induction i using Nat.strongRecOn generalizing r with
    | ind i ih =>
      have hget : t.get? r = some t.entries[r.index] := Array.getElem?_eq_getElem hr
      refine exists_textWithin_succ_iff.mpr ⟨_, hget, fun c hc => ?_⟩
      have hlt : c.index < i := hi ▸ h.lt_of_mem hget hc
      obtain ⟨s, hs⟩ := ih c.index hlt (h.has_component hget hc) rfl
      exact ⟨s, textWithin_of_le hlt hs⟩
  exact ⟨s, fun depth hdepth => textWithin_of_le hdepth hs⟩

end IrGraph.TypeTable
