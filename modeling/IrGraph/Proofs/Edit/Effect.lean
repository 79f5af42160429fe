import IrGraph.Proofs.Arena
import IrGraph.Proofs.Edit.Run

/-! What the operations on a graph do when they are not refused: what they found before, and the
graph afterwards as the graph before with some arenas changed. -/

namespace IrGraph.Graph

variable {g g' : Graph}

section Add

theorem addInst_eq_ok {kind : Instruction} {ident : Ident} {i : InstRef}
    (h : g.addInst kind ident = .ok (i, g')) :
    ∃ type types, g.instType kind = .ok (type, types) ∧
      g' = { g with types, insts := g.insts.push ⟨kind, type, ident, none⟩ } := by
  simp only [addInst, bind_eq_ok_iff, Prod.exists, pure_eq_ok_iff, Prod.mk.injEq] at h
  obtain ⟨type, types, htype, -, rfl⟩ := h
  exact ⟨type, types, htype, rfl⟩

theorem addTerm_eq_ok {kind : Terminator} {ident : Ident} {t : TermRef}
    (h : g.addTerm kind ident = .ok (t, g')) :
    ∃ type, g.termType kind = .ok type ∧
      g' = { g with terms := g.terms.push ⟨kind, type, ident, none⟩ } := by
  simp only [addTerm, bind_eq_ok_iff, pure_eq_ok_iff, Prod.mk.injEq] at h
  obtain ⟨type, htype, -, rfl⟩ := h
  exact ⟨type, htype, rfl⟩

theorem addConst_eq_ok {data : Constant} {c : ConstRef} (h : g.addConst data = .ok (c, g')) :
    ∃ type types, g.constType data = .ok (type, types) ∧
      g' = { g with types, consts := g.consts.push ⟨data, type⟩ } := by
  simp only [addConst, bind_eq_ok_iff, Prod.exists, pure_eq_ok_iff, Prod.mk.injEq] at h
  obtain ⟨type, types, htype, -, rfl⟩ := h
  exact ⟨type, types, htype, rfl⟩

theorem addZero_eq_ok {type : TypeRef} {c : ConstRef} (h : g.addZero type = .ok (c, g')) :
    ∃ data, data.types = [type] ∧ data.parts = [] ∧ g.addConst data = .ok (c, g') := by
  rw [addZero, bind_eq_ok_iff] at h
  obtain ⟨ty, -, h⟩ := h
  split at h
  all_goals exact ⟨_, rfl, rfl, h⟩

end Add

section Claim

theorem claimParam_eq_ok {f : FuncRef} {p : ParamRef} (h : g.claimParam f p = .ok g') :
    (∃ param, g.params.get? p = some param ∧ param.owner = none) ∧
      g' = { g with
        params := g.params.mapRefs (onlyAt p fun x => { x with owner := some f }) } := by
  simp only [claimParam, bind_eq_ok_iff, Arena.get_eq_ok_iff] at h
  obtain ⟨param, hp, h⟩ := h
  split at h
  · cases h
  · rename_i hfree
    rw [pure_eq_ok_iff] at h
    refine ⟨⟨param, hp, hfree⟩, ?_⟩
    rw [← h, Arena.set_eq_mapRefs g.params (fun x => { x with owner := some f }) hp rfl]

theorem claimBlock_eq_ok {f : FuncRef} {b : BlockRef} (h : g.claimBlock f b = .ok g') :
    (∃ block, g.blocks.get? b = some block ∧ block.owner = none) ∧
      g' = { g with
        blocks := g.blocks.mapRefs (onlyAt b fun x => { x with owner := some f }) } := by
  simp only [claimBlock, bind_eq_ok_iff, Arena.get_eq_ok_iff] at h
  obtain ⟨block, hb, h⟩ := h
  split at h
  · cases h
  · rename_i hfree
    rw [pure_eq_ok_iff] at h
    refine ⟨⟨block, hb, hfree⟩, ?_⟩
    rw [← h, Arena.set_eq_mapRefs g.blocks (fun x => { x with owner := some f }) hb rfl]

/-- Claiming a list goes through when its members are free and no two are the same; it then claims
all of them. -/
theorem foldlM_claim {k : Kind} {α : Type} {step : Graph → Ref k → Except Fault Graph}
    (arena : Graph → Arena k α) (put : Graph → Arena k α → Graph) (owner : α → Option FuncRef)
    (own : α → α) (harena : ∀ g a, arena (put g a) = a)
    (hput : ∀ g a b, put (put g a) b = put g b) (hself : ∀ g, put g (arena g) = g)
    (hown : ∀ x, owner (own x) ≠ none)
    (hstep : ∀ {g g' r}, step g r = .ok g' → (∃ x, (arena g).get? r = some x ∧ owner x = none) ∧
      g' = put g ((arena g).mapRefs (onlyAt r own)))
    {l : List (Ref k)} (h : l.foldlM step g = .ok g') :
    l.Nodup ∧ (∀ r ∈ l, ∃ x, (arena g).get? r = some x ∧ owner x = none) ∧
      g' = put g ((arena g).mapRefs fun r x => if r ∈ l then own x else x) := by
  induction l generalizing g with
  | nil =>
    rw [List.foldlM_nil, pure_eq_ok_iff] at h
    subst h
    simp [Arena.mapRefs_eq_self, hself]
  | cons s l ih =>
    rw [List.foldlM_cons, bind_eq_ok_iff] at h
    obtain ⟨mid, hs, h⟩ := h
    obtain ⟨⟨x, hx, hfree⟩, rfl⟩ := hstep hs
    obtain ⟨hnd, hall, rfl⟩ := ih h
    rw [harena] at hall
    have hsl : s ∉ l := by
      intro hmem
      obtain ⟨y, hy, hyfree⟩ := hall s hmem
      rw [Arena.get?_mapRefs, hx, Option.map_some, onlyAt, if_pos rfl] at hy
      exact hown x (Option.some.inj hy ▸ hyfree)
    refine ⟨List.nodup_cons.mpr ⟨hsl, hnd⟩, ?_, ?_⟩
    · intro r hr
      rcases List.mem_cons.mp hr with rfl | hr
      · exact ⟨x, hx, hfree⟩
      · obtain ⟨y, hy, hyfree⟩ := hall r hr
        have hrs : r ≠ s := fun heq => hsl (heq ▸ hr)
        rw [Arena.get?_mapRefs] at hy
        obtain ⟨z, hz, hzy⟩ := Option.map_eq_some_iff.mp hy
        rw [onlyAt, if_neg hrs] at hzy
        exact ⟨z, hz, hzy ▸ hyfree⟩
    · rw [hput, harena, Arena.mapRefs_mapRefs]
      congr 1
      apply Arena.mapRefs_congr
      intro r y _
      by_cases hrs : r = s
      · subst hrs
        simp [onlyAt, hsl]
      · simp [onlyAt, hrs]

theorem addFunc_eq_ok {f : Func} {r : FuncRef} (h : g.addFunc f = .ok (r, g')) :
    r = g.funcs.next ∧
      (f.params.Nodup ∧ ∀ p ∈ f.params, ∃ param, g.params.get? p = some param ∧
        param.owner = none) ∧
      (f.blocks.Nodup ∧ ∀ b ∈ f.blocks, ∃ block, g.blocks.get? b = some block ∧
        block.owner = none) ∧
      g' = { g with
        funcs := g.funcs.push f
        params := g.params.mapRefs fun p x => if p ∈ f.params then { x with owner := some r } else x
        blocks := g.blocks.mapRefs fun b x =>
          if b ∈ f.blocks then { x with owner := some r } else x } := by
  simp only [addFunc, bind_eq_ok_iff, pure_eq_ok_iff, Prod.mk.injEq] at h
  obtain ⟨mid, hparams, last, hblocks, rfl, rfl⟩ := h
  obtain ⟨hpnd, hpfree, rfl⟩ := foldlM_claim (·.params) (fun g params => { g with params })
    Param.owner (fun x => { x with owner := some g.funcs.next }) (fun _ _ => rfl)
    (fun _ _ _ => rfl) (fun _ => rfl) (fun _ => by simp) claimParam_eq_ok hparams
  obtain ⟨hbnd, hbfree, rfl⟩ := foldlM_claim (·.blocks) (fun g blocks => { g with blocks })
    Block.owner (fun x => { x with owner := some g.funcs.next }) (fun _ _ => rfl)
    (fun _ _ _ => rfl) (fun _ => rfl) (fun _ => by simp) claimBlock_eq_ok hblocks
  exact ⟨rfl, ⟨hpnd, hpfree⟩, ⟨hbnd, hbfree⟩, rfl⟩

end Claim

section Attach

variable {f : FuncRef} {b : BlockRef} {i before : InstRef} {t : TermRef}

theorem pushBlock_eq_ok (h : g.pushBlock f b = .ok g') :
    ∃ block func, g.blocks.get? b = some block ∧ block.owner = none ∧
      g.funcs.get? f = some func ∧
      g' = { g with
        blocks := g.blocks.mapRefs (onlyAt b fun x => { x with owner := some f })
        funcs := g.funcs.mapRefs (onlyAt f fun x => { x with blocks := x.blocks ++ [b] }) } := by
  simp only [pushBlock, bind_eq_ok_iff, pure_eq_ok_iff] at h
  obtain ⟨mid, hclaim, funcs, hfuncs, rfl⟩ := h
  obtain ⟨⟨block, hb, hfree⟩, rfl⟩ := claimBlock_eq_ok hclaim
  obtain ⟨⟨func, hf⟩, rfl⟩ := Arena.modify_eq_ok_iff.mp hfuncs
  exact ⟨block, func, hb, hfree, hf, rfl⟩

theorem freeInst_eq_ok_iff {place : Placement} {inst : Inst} :
    g.freeInst place i = .ok inst ↔ g.insts.get? i = some inst ∧ inst.owner = none := by
  simp only [freeInst, bind_eq_ok_iff, Arena.get_eq_ok_iff]
  constructor
  · rintro ⟨x, hx, h⟩
    split at h
    · cases h
    · rename_i hfree
      obtain rfl := pure_eq_ok_iff.mp h
      exact ⟨hx, hfree⟩
  · rintro ⟨hi, hfree⟩
    refine ⟨inst, hi, ?_⟩
    rw [hfree]
    rfl

theorem pushInst_eq_ok (h : g.pushInst b i = .ok g') :
    ∃ inst block, g.insts.get? i = some inst ∧ inst.owner = none ∧
      g.blocks.get? b = some block ∧
      g' = { g with
        blocks := g.blocks.mapRefs (onlyAt b fun x => { x with insts := x.insts ++ [i] })
        insts := g.insts.mapRefs (onlyAt i fun x => { x with owner := some b }) } := by
  simp only [pushInst, bind_eq_ok_iff, freeInst_eq_ok_iff, pure_eq_ok_iff] at h
  obtain ⟨inst, ⟨hi, hfree⟩, blocks, hblocks, rfl⟩ := h
  obtain ⟨⟨block, hb⟩, rfl⟩ := Arena.modify_eq_ok_iff.mp hblocks
  rw [Arena.set_eq_mapRefs g.insts (fun x => { x with owner := some b }) hi rfl]
  exact ⟨inst, block, hi, hfree, hb, rfl⟩

theorem insertInstBefore_eq_ok (h : g.insertInstBefore b before i = .ok g') :
    ∃ inst block insts, g.insts.get? i = some inst ∧ inst.owner = none ∧
      g.blocks.get? b = some block ∧ insertBefore? before i block.insts = some insts ∧
      g' = { g with
        blocks := g.blocks.mapRefs (onlyAt b fun x => { x with insts })
        insts := g.insts.mapRefs (onlyAt i fun x => { x with owner := some b }) } := by
  simp only [insertInstBefore, bind_eq_ok_iff, freeInst_eq_ok_iff, Arena.get_eq_ok_iff] at h
  obtain ⟨inst, ⟨hi, hfree⟩, block, hb, h⟩ := h
  split at h
  · cases h
  · rename_i insts hinsts
    obtain rfl := pure_eq_ok_iff.mp h
    rw [Arena.set_eq_mapRefs g.insts (fun x => { x with owner := some b }) hi rfl,
      Arena.set_eq_mapRefs g.blocks (fun x => { x with insts }) hb rfl]
    exact ⟨inst, block, insts, hi, hfree, hb, hinsts, rfl⟩

theorem removeInst_eq_ok (h : g.removeInst b i = .ok g') :
    ∃ inst block, g.insts.get? i = some inst ∧ g.blocks.get? b = some block ∧
      g' = { g with
        blocks := g.blocks.mapRefs (onlyAt b fun x => { x with insts := x.insts.filter (· ≠ i) })
        insts := g.insts.mapRefs (onlyAt i fun x =>
          { x with owner := if x.owner = some b then none else x.owner }) } := by
  simp only [removeInst, bind_eq_ok_iff, Arena.get_eq_ok_iff] at h
  obtain ⟨blocks, hblocks, inst, hi, h⟩ := h
  obtain ⟨⟨block, hb⟩, rfl⟩ := Arena.modify_eq_ok_iff.mp hblocks
  refine ⟨inst, block, hi, hb, ?_⟩
  split at h
  · rename_i howner
    obtain rfl := pure_eq_ok_iff.mp h
    rw [Arena.set_eq_mapRefs g.insts
      (fun x => { x with owner := if x.owner = some b then none else x.owner }) hi
      (by simp [howner])]
  · rename_i howner
    obtain rfl := pure_eq_ok_iff.mp h
    have hsame : g.insts.mapRefs (onlyAt i fun x =>
        { x with owner := if x.owner = some b then none else x.owner }) = g.insts := by
      apply Arena.mapRefs_eq_self
      intro r x hr
      unfold onlyAt
      split
      · subst r
        obtain rfl := Option.some.inj (hi.symm.trans hr)
        simp only [if_neg howner]
      · rfl
    rw [hsame]

theorem setTerm_eq_ok (h : g.setTerm b t = .ok g') :
    ∃ term block, g.terms.get? t = some term ∧ (term.owner = none ∨ term.owner = some b) ∧
      g.blocks.get? b = some block ∧
      g' = { g with
        blocks := g.blocks.mapRefs (onlyAt b fun x => { x with term := some t })
        terms := g.terms.mapRefs fun r x =>
          if r = t then { x with owner := some b }
          else if block.term = some r then { x with owner := none } else x } := by
  simp only [setTerm, bind_eq_ok_iff, Arena.get_eq_ok_iff] at h
  obtain ⟨term, ht, h⟩ := h
  have howner : term.owner = none ∨ term.owner = some b := by
    cases howner : term.owner with
    | none => exact .inl rfl
    | some owner =>
      by_cases hb : owner = b
      · exact .inr (congrArg some hb)
      · simp only [howner, ne_eq, hb, not_false_eq_true, if_true, bind_eq_ok_iff] at h
        obtain ⟨_, h, -⟩ := h
        exact (throw_ne_ok h).elim
  -- the terminator that the block had is let go, if there was one
  have htail : ∃ block terms, g.blocks.get? b = some block ∧
      terms = g.terms.mapRefs (fun r x =>
        if block.term = some r then { x with owner := none } else x) ∧
      g' = { g with
        blocks := g.blocks.set b { block with term := some t }
        terms := terms.mapRefs (onlyAt t fun x => { x with owner := some b }) } := by
    rcases howner with howner | howner
    all_goals
      simp only [howner, ne_eq, not_true_eq_false, if_false, bind_eq_ok_iff,
        Arena.get_eq_ok_iff] at h
      obtain ⟨block, hb, h⟩ := h
      cases hterm : block.term with
      | none =>
        simp only [hterm, bind_eq_ok_iff, pure_eq_ok_iff, Arena.modify_eq_ok_iff] at h
        obtain ⟨_, rfl, _, ⟨-, rfl⟩, rfl⟩ := h
        refine ⟨block, g.terms, hb, ?_, rfl⟩
        simp [hterm, Arena.mapRefs_eq_self]
      | some old =>
        simp only [hterm, bind_eq_ok_iff, pure_eq_ok_iff, Arena.modify_eq_ok_iff] at h
        obtain ⟨_, ⟨-, rfl⟩, _, ⟨-, rfl⟩, rfl⟩ := h
        refine ⟨block, _, hb, ?_, rfl⟩
        simp only [hterm, Option.some.injEq]
        exact Arena.mapRefs_congr fun r x _ => by simp [onlyAt, eq_comm]
  obtain ⟨block, terms, hb, rfl, rfl⟩ := htail
  refine ⟨term, block, ht, howner, hb, ?_⟩
  rw [Arena.set_eq_mapRefs g.blocks (fun x => { x with term := some t }) hb rfl,
    Arena.mapRefs_mapRefs]
  congr 1
  apply Arena.mapRefs_congr
  intro r x _
  unfold onlyAt
  split
  · split <;> rfl
  · rfl

end Attach

section Rewrite

variable {i : InstRef} {t : TermRef} {v : Value}

theorem setInstKind_eq_ok {kind : Instruction} (h : g.setInstKind i kind = .ok g') :
    (∃ inst, g.insts.get? i = some inst) ∧
      g' = { g with insts := g.insts.mapRefs (onlyAt i fun x => { x with kind }) } := by
  simp only [setInstKind, bind_eq_ok_iff, pure_eq_ok_iff, Arena.modify_eq_ok_iff] at h
  obtain ⟨_, ⟨hi, rfl⟩, rfl⟩ := h
  exact ⟨hi, rfl⟩

theorem setTermKind_eq_ok {kind : Terminator} (h : g.setTermKind t kind = .ok g') :
    (∃ term, g.terms.get? t = some term) ∧
      g' = { g with terms := g.terms.mapRefs (onlyAt t fun x => { x with kind }) } := by
  simp only [setTermKind, bind_eq_ok_iff, pure_eq_ok_iff, Arena.modify_eq_ok_iff] at h
  obtain ⟨_, ⟨ht, rfl⟩, rfl⟩ := h
  exact ⟨ht, rfl⟩

theorem setMetadata_eq_ok {m : MetadataRef} {node : MetadataNode}
    (h : g.setMetadata m node = .ok g') : ∃ metadata, g' = { g with metadata } := by
  simp only [setMetadata, bind_eq_ok_iff, pure_eq_ok_iff] at h
  obtain ⟨metadata, -, rfl⟩ := h
  exact ⟨metadata, rfl⟩

theorem replaceUse_inst_eq_ok {s : InstSlot} (h : g.replaceUse (.inst i s) v = .ok g') :
    ∃ inst kind, g.insts.get? i = some inst ∧ inst.kind.write s v = some kind ∧
      g.setInstKind i kind = .ok g' := by
  simp only [replaceUse, bind_eq_ok_iff, Arena.get_eq_ok_iff] at h
  obtain ⟨inst, hi, h⟩ := h
  split at h
  · rename_i kind hkind
    exact ⟨inst, kind, hi, hkind, h⟩
  · cases h

theorem replaceUse_term_eq_ok {s : TermSlot} (h : g.replaceUse (.term t s) v = .ok g') :
    ∃ term kind, g.terms.get? t = some term ∧ term.kind.write s v = some kind ∧
      g.setTermKind t kind = .ok g' := by
  simp only [replaceUse, bind_eq_ok_iff, Arena.get_eq_ok_iff] at h
  obtain ⟨term, ht, h⟩ := h
  split at h
  · rename_i kind hkind
    exact ⟨term, kind, ht, hkind, h⟩
  · cases h

theorem refreshType_eq_ok {changed : Bool} (h : g.refreshType i = .ok (changed, g')) :
    ∃ inst type types, g.insts.get? i = some inst ∧ g.instType inst.kind = .ok (type, types) ∧
      g' = { g with types, insts := g.insts.mapRefs (onlyAt i fun x => { x with type }) } := by
  simp only [refreshType, bind_eq_ok_iff, Arena.get_eq_ok_iff, Prod.exists, pure_eq_ok_iff,
    Prod.mk.injEq] at h
  obtain ⟨inst, hi, type, types, htype, -, rfl⟩ := h
  rw [Arena.set_eq_mapRefs g.insts (fun x => { x with type }) hi rfl]
  exact ⟨inst, type, types, hi, htype, rfl⟩

/-- What each new type of an instruction keeps, the new types of a function keep. -/
theorem refreshTypes_induction {P : Graph → Prop} {f : FuncRef}
    (hstep : ∀ i g g' changed, P g → g.refreshType i = .ok (changed, g') → P g') (hg : P g)
    (h : g.refreshTypes f = .ok g') : P g' := by
  simp only [refreshTypes, bind_eq_ok_iff] at h
  obtain ⟨func, -, body, -, h⟩ := h
  refine foldlM_induction ?_ hg h
  intro i _ g g' hg hi
  simp only [bind_eq_ok_iff, pure_eq_ok_iff] at hi
  obtain ⟨⟨changed, mid⟩, hi, rfl⟩ := hi
  exact hstep i g mid changed hg hi

theorem foldLiterals_eq_some {op : BinaryOp} {x y literal : Constant}
    (h : g.foldLiterals op x y = .ok (some literal)) :
    literal.types = x.types ∧ literal.parts = [] := by
  unfold foldLiterals at h
  split at h
  · obtain ⟨bits, -, h⟩ := bind_eq_ok_iff.mp h
    obtain ⟨value, -, rfl⟩ := Option.map_eq_some_iff.mp (pure_eq_ok_iff.mp h)
    exact ⟨rfl, rfl⟩
  · obtain ⟨value, -, rfl⟩ := Option.map_eq_some_iff.mp (pure_eq_ok_iff.mp h)
    exact ⟨rfl, rfl⟩
  · cases h

/-- Folding only adds literals, each of the type of a literal that is there. -/
theorem simplify_induction {P : Graph → Prop} {c c' : ConstRef}
    (hstep : ∀ g g' x stored literal c, P g → g.consts.get? x = some stored →
      literal.types = stored.data.types → literal.parts = [] → g.addConst literal = .ok (c, g') →
      P g') (hg : P g)
    (h : g.simplify c = .ok (c', g')) : P g' := by
  have hwithin : ∀ depth g c c' g', P g → g.simplifyWithin depth c = .ok (c', g') → P g' := by
    intro depth
    induction depth with
    | zero => intro g c c' g' _ h; cases h
    | succ depth ih =>
      intro g c c' g' hg h
      simp only [simplifyWithin, bind_eq_ok_iff, Arena.get_eq_ok_iff] at h
      obtain ⟨stored, -, h⟩ := h
      split at h
      · rename_i op x y hdata
        simp only [bind_eq_ok_iff, Prod.exists, Arena.get_eq_ok_iff] at h
        obtain ⟨x', g₁, hx, y', g₂, hy, sx, hsx, sy, -, folded, hfold, h⟩ := h
        have hg₂ : P g₂ := ih g₁ y y' g₂ (ih g x x' g₁ hg hx) hy
        split at h
        · obtain ⟨htypes, hparts⟩ := foldLiterals_eq_some hfold
          exact hstep g₂ g' x' sx _ c' hg₂ hsx htypes hparts h
        · cases pure_eq_ok_iff.mp h
          exact hg₂
      · cases pure_eq_ok_iff.mp h
        exact hg
  exact hwithin _ g c c' g' hg h

end Rewrite

end IrGraph.Graph
