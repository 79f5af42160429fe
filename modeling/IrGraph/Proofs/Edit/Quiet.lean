import IrGraph.Proofs.Edit.Effect
import IrGraph.Proofs.Edit.Idents

/-! Most edits are quiet: they add entities that belong to nothing, or change names, numbers and
types of those that are there. What is attached stays where it is, and operands stay as they are. -/

namespace IrGraph

namespace Arena

/-- The entities of `a` are in `b` with the same shape, and what is new there has a fresh one. -/
structure Grows {k : Kind} {α σ : Type} (shape : α → σ) (fresh : σ → Prop) (a b : Arena k α) :
    Prop where
  kept : ∀ r s, a.view shape r = some s → b.view shape r = some s
  added : ∀ r s, a.view shape r = none → b.view shape r = some s → fresh s

namespace Grows

variable {k : Kind} {α β σ : Type} {shape : α → σ} {fresh : σ → Prop} {a b c : Arena k α}

theorem refl (a : Arena k α) : Grows shape fresh a a where
  kept _ _ h := h
  added r s hnone h := by
    rw [hnone] at h
    cases h

theorem trans (h : Grows shape fresh a b) (h' : Grows shape fresh b c) : Grows shape fresh a c where
  kept r s hs := h'.kept r s (h.kept r s hs)
  added r s hnone hs := by
    cases hb : b.view shape r with
    | none => exact h'.added r s hb hs
    | some t =>
      obtain rfl := Option.some.inj ((h'.kept r t hb).symm.trans hs)
      exact h.added r t hnone hb

theorem push {x : α} (hx : fresh (shape x)) : Grows shape fresh a (a.push x) where
  kept r s hs := by
    rw [view_push, Function.update_of_ne, hs]
    rintro rfl
    rw [view, get?_next] at hs
    cases hs
  added r s hnone hs := by
    rw [view_push] at hs
    by_cases hr : r = a.next
    · subst hr
      rw [Function.update_self] at hs
      exact Option.some.inj hs ▸ hx
    · rw [Function.update_of_ne hr, hnone] at hs
      cases hs

theorem mapRefs {φ : Ref k → α → α} (hφ : ∀ r x, shape (φ r x) = shape x) :
    Grows shape fresh a (a.mapRefs φ) where
  kept r s hs := by rw [view_mapRefs_of_eq hφ, hs]
  added r s hnone hs := by
    rw [view_mapRefs_of_eq hφ, hnone] at hs
    cases hs

theorem onlyAt {r : Ref k} {f : α → α} (hf : ∀ x, shape (f x) = shape x) :
    Grows shape fresh a (a.mapRefs (onlyAt r f)) :=
  mapRefs (apply_onlyAt hf r)

theorem kept_part (h : Grows shape fresh a b) (part : σ → β) {r : Ref k} {z : β}
    (hz : a.view (fun x => part (shape x)) r = some z) :
    b.view (fun x => part (shape x)) r = some z := by
  obtain ⟨x, hx, rfl⟩ := view_eq_some_iff.mp hz
  have hb : b.view shape r = some (shape x) := h.kept r _ (view_eq_some_iff.mpr ⟨x, hx, rfl⟩)
  obtain ⟨y, hy, hxy⟩ := view_eq_some_iff.mp hb
  exact view_eq_some_iff.mpr ⟨y, hy, by rw [hxy]⟩

/-- A part of the shape that fresh entities do not have shows the same through any reference. -/
theorem bind_view_eq (h : Grows shape fresh a b) {part : σ → Option β}
    (hpart : ∀ s, fresh s → part s = none) (r : Ref k) :
    (b.view shape r).bind part = (a.view shape r).bind part := by
  cases ha : a.view shape r with
  | some s => rw [h.kept r s ha]
  | none =>
    cases hb : b.view shape r with
    | none => rfl
    | some s => exact hpart s (h.added r s ha hb)

theorem link_eq (h : Grows shape fresh a b) (owner : σ → Option β)
    (howner : ∀ s, fresh s → owner s = none) :
    b.link (fun x => owner (shape x)) = a.link (fun x => owner (shape x)) := by
  funext r
  have hr := h.bind_view_eq howner r
  cases ha : a.get? r <;> cases hb : b.get? r <;> simp_all [link, view]

theorem members_eq (h : Grows shape fresh a b) (list : σ → List β)
    (hlist : ∀ s, fresh s → list s = []) :
    b.members (fun x => list (shape x)) = a.members (fun x => list (shape x)) := by
  funext r
  cases ha : a.view shape r with
  | some s =>
    have hb := h.kept r s ha
    rw [view_eq_some_iff] at ha hb
    obtain ⟨x, hx, rfl⟩ := ha
    obtain ⟨y, hy, hxy⟩ := hb
    rw [members_of_get? hx, members_of_get? hy, hxy]
  | none =>
    have hnone : a.get? r = none := by simpa [view] using ha
    cases hb : b.get? r with
    | none => simp [members, view, hnone, hb]
    | some y =>
      rw [members_of_get? hb, hlist (shape y) (h.added r _ ha (by simp [view, hb]))]
      simp [members, view, hnone]

end Grows

end Arena

namespace Graph

/-- Lists, owners and kinds are as they were, and what is new belongs to nothing. -/
structure Quiet (g g' : Graph) : Prop where
  funcs : g'.funcs = g.funcs
  params : g.params.Grows Param.owner (· = none) g'.params
  blocks : g.blocks.Grows (fun x => (x.insts, x.term, x.owner)) (· = ([], none, none)) g'.blocks
  insts : g.insts.Grows (fun x => (x.kind, x.owner)) (·.2 = none) g'.insts
  terms : g.terms.Grows (fun x => (x.kind, x.owner)) (·.2 = none) g'.terms

namespace Quiet

variable {g g' g'' : Graph}

theorem refl (g : Graph) : Quiet g g :=
  ⟨rfl, .refl _, .refl _, .refl _, .refl _⟩

theorem trans (h : Quiet g g') (h' : Quiet g' g'') : Quiet g g'' :=
  ⟨h'.funcs.trans h.funcs, h.params.trans h'.params, h.blocks.trans h'.blocks,
    h.insts.trans h'.insts, h.terms.trans h'.terms⟩

theorem addInst {kind : Instruction} {ident : Ident} {i : InstRef}
    (h : g.addInst kind ident = .ok (i, g')) : Quiet g g' := by
  obtain ⟨type, types, -, rfl⟩ := addInst_eq_ok h
  exact ⟨rfl, .refl _, .refl _, .push rfl, .refl _⟩

theorem addTerm {kind : Terminator} {ident : Ident} {t : TermRef}
    (h : g.addTerm kind ident = .ok (t, g')) : Quiet g g' := by
  obtain ⟨type, -, rfl⟩ := addTerm_eq_ok h
  exact ⟨rfl, .refl _, .refl _, .refl _, .push rfl⟩

theorem addConst {data : Constant} {c : ConstRef} (h : g.addConst data = .ok (c, g')) :
    Quiet g g' := by
  obtain ⟨type, types, -, rfl⟩ := addConst_eq_ok h
  exact ⟨rfl, .refl _, .refl _, .refl _, .refl _⟩

theorem addBytes {bytes : List UInt8} {c : ConstRef} (h : g.addBytes bytes = .ok (c, g')) :
    Quiet g g' := by
  obtain ⟨type, types, -, rfl⟩ := addConst_eq_ok h
  exact ⟨rfl, .refl _, .refl _, .refl _, .refl _⟩

theorem mapIdents (g : Graph) (φ : Value → Ident → Ident) : Quiet g (g.mapIdents φ) := by
  refine ⟨rfl, ?_, ?_, ?_, ?_⟩
  all_goals
    simp only [Graph.mapIdents]
    apply Arena.Grows.mapRefs
    exact fun _ _ => rfl

theorem refreshType {i : InstRef} {changed : Bool} (h : g.refreshType i = .ok (changed, g')) :
    Quiet g g' := by
  obtain ⟨inst, type, types, -, -, rfl⟩ := refreshType_eq_ok h
  refine ⟨rfl, .refl _, .refl _, .onlyAt ?_, .refl _⟩
  exact fun _ => rfl

theorem refreshTypes {f : FuncRef} (h : g.refreshTypes f = .ok g') : Quiet g g' :=
  refreshTypes_induction (fun _ _ _ _ hq h => hq.trans (refreshType h)) (refl g) h

theorem simplify {c c' : ConstRef} (h : g.simplify c = .ok (c', g')) : Quiet g g' :=
  simplify_induction (fun _ _ _ _ _ _ hq _ _ _ h => hq.trans (addConst h)) (refl g) h

end Quiet

end Graph

/-- Whether an edit neither attaches nor detaches anything and rewrites no operand. -/
def Edit.isQuiet : Edit → Bool
  | .addFunc _ | .pushBlock .. | .pushInst .. | .insertInstBefore .. | .removeInst .. | .setTerm ..
  | .replaceUse .. | .setInstKind .. | .setTermKind .. => false
  | _ => true

theorem Graph.Quiet.of_apply {g g' : Graph} {e : Edit} (he : e.isQuiet) (h : e.apply g = .ok g') :
    Quiet g g' := by
  cases e with
  | addFunc | pushBlock | pushInst | insertInstBefore | removeInst | setTerm | replaceUse
  | setInstKind | setTermKind => cases he
  | intern | addModule | addGlobal | addAlias | addIFunc | addUseListOrder | addUseListOrderBlock
  | addMetadata | addNamedMetadata =>
    cases pure_eq_ok_iff.mp h
    exact ⟨rfl, .refl _, .refl _, .refl _, .refl _⟩
  | addParam type ident =>
    cases pure_eq_ok_iff.mp h
    exact ⟨rfl, .push rfl, .refl _, .refl _, .refl _⟩
  | addBlock ident =>
    cases pure_eq_ok_iff.mp h
    exact ⟨rfl, .refl _, .push rfl, .refl _, .refl _⟩
  | rename v name =>
    rw [modifyIdent_eq_ok (f := (·.rename name)) h]
    exact mapIdents g _
  | resetNames f =>
    obtain ⟨φ, rfl⟩ := resetNames_eq_mapIdents h
    exact mapIdents g φ
  | setMetadata m node =>
    obtain ⟨metadata, rfl⟩ := setMetadata_eq_ok h
    exact ⟨rfl, .refl _, .refl _, .refl _, .refl _⟩
  | refreshTypes f => exact refreshTypes h
  -- the rest answer something beside the graph
  | addInst | addComment =>
    obtain ⟨i, h⟩ := return_snd_eq_ok_iff.mp h
    exact addInst h
  | addTerm =>
    obtain ⟨t, h⟩ := return_snd_eq_ok_iff.mp h
    exact addTerm h
  | addConst | addInt =>
    obtain ⟨c, h⟩ := return_snd_eq_ok_iff.mp h
    exact addConst h
  | addZero =>
    obtain ⟨c, h⟩ := return_snd_eq_ok_iff.mp h
    obtain ⟨data, -, -, h⟩ := addZero_eq_ok h
    exact addConst h
  | addCString | addPascalString =>
    obtain ⟨c, h⟩ := return_snd_eq_ok_iff.mp h
    exact addBytes h
  | assignIds =>
    obtain ⟨e, h⟩ := return_snd_eq_ok_iff.mp h
    obtain ⟨φ, rfl⟩ := assignIds_eq_mapIdents h
    exact mapIdents g φ
  | refreshType =>
    obtain ⟨changed, h⟩ := return_snd_eq_ok_iff.mp h
    exact refreshType h
  | simplify =>
    obtain ⟨c, h⟩ := return_snd_eq_ok_iff.mp h
    exact simplify h

end IrGraph
