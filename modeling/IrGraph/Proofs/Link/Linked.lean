import IrGraph.Proofs.Edit.Quiet
import IrGraph.Proofs.Link.Placed

/-! Each parameter, block, instruction and terminator has at most one place. Functions list their
parameters and blocks, blocks list their instructions and have a terminator, and all of these name
what they belong to; every edit keeps the two in step. -/

namespace IrGraph.Graph

/-- What lists name and what owners say are the same. -/
structure Linked (g : Graph) : Prop where
  params : Placed (g.funcs.members Func.params) (g.params.link Param.owner)
  blocks : Placed (g.funcs.members Func.blocks) (g.blocks.link Block.owner)
  insts : Placed (g.blocks.members Block.insts) (g.insts.link Inst.owner)
  terms : Placed (g.blocks.members (·.term.toList)) (g.terms.link Term.owner)

theorem perm_of_insertBefore? {before i : InstRef} {l l' : List InstRef}
    (h : insertBefore? before i l = some l') : l'.Perm (i :: l) := by
  induction l generalizing l' with
  | nil => cases h
  | cons j rest ih =>
    rw [insertBefore?] at h
    split at h
    · obtain rfl := Option.some.inj h
      exact .refl _
    · obtain ⟨rest', hrest, rfl⟩ := Option.map_eq_some_iff.mp h
      exact ((ih hrest).cons j).trans (.swap i j rest)

namespace Linked

variable {g g' : Graph} {f : FuncRef} {b : BlockRef} {i before : InstRef} {t : TermRef}

theorem empty : Graph.empty.Linked := by
  refine ⟨?_, ?_, ?_, ?_⟩
  all_goals
    refine ⟨fun c x => ?_, fun c => ?_⟩
    all_goals simp [Arena.members, Arena.link, Arena.view, Graph.empty, Arena.empty, Arena.get?]

theorem of_quiet (h : g.Linked) (hq : Quiet g g') : g'.Linked where
  params := by
    have hlink : g'.params.link Param.owner = g.params.link Param.owner :=
      hq.params.link_eq id fun _ h => h
    rw [hq.funcs, hlink]
    exact h.params
  blocks := by
    have hlink : g'.blocks.link Block.owner = g.blocks.link Block.owner :=
      hq.blocks.link_eq (·.2.2) fun _ h => by rw [h]
    rw [hq.funcs, hlink]
    exact h.blocks
  insts := by
    have hmembers : g'.blocks.members Block.insts = g.blocks.members Block.insts :=
      hq.blocks.members_eq (·.1) fun _ h => by rw [h]
    have hlink : g'.insts.link Inst.owner = g.insts.link Inst.owner :=
      hq.insts.link_eq (·.2) fun _ h => h
    rw [hmembers, hlink]
    exact h.insts
  terms := by
    have hmembers : g'.blocks.members (·.term.toList) = g.blocks.members (·.term.toList) :=
      hq.blocks.members_eq (·.2.1.toList) fun _ h => by rw [h]; rfl
    have hlink : g'.terms.link Term.owner = g.terms.link Term.owner :=
      hq.terms.link_eq (·.2) fun _ h => h
    rw [hmembers, hlink]
    exact h.terms

theorem setInstKind {kind : Instruction} (h : g.Linked) (hk : g.setInstKind i kind = .ok g') :
    g'.Linked := by
  obtain ⟨-, rfl⟩ := setInstKind_eq_ok hk
  refine ⟨h.params, h.blocks, ?_, h.terms⟩
  rw [Arena.link_onlyAt_of_eq]
  · exact h.insts
  · exact fun _ => rfl

theorem setTermKind {kind : Terminator} (h : g.Linked) (hk : g.setTermKind t kind = .ok g') :
    g'.Linked := by
  obtain ⟨-, rfl⟩ := setTermKind_eq_ok hk
  refine ⟨h.params, h.blocks, h.insts, ?_⟩
  rw [Arena.link_onlyAt_of_eq]
  · exact h.terms
  · exact fun _ => rfl

theorem replaceUse {u : Use} {v : Value} (h : g.Linked) (hu : g.replaceUse u v = .ok g') :
    g'.Linked := by
  cases u with
  | inst i s =>
    obtain ⟨inst, kind, -, -, hk⟩ := replaceUse_inst_eq_ok hu
    exact h.setInstKind hk
  | term t s =>
    obtain ⟨term, kind, -, -, hk⟩ := replaceUse_term_eq_ok hu
    exact h.setTermKind hk

theorem addFunc {func : Func} (h : g.Linked) (hf : g.addFunc func = .ok (f, g')) : g'.Linked := by
  obtain ⟨rfl, ⟨hpnd, hpfree⟩, ⟨hbnd, hbfree⟩, rfl⟩ := addFunc_eq_ok hf
  -- the new function had no members before
  have hnew {β : Type} (list : Func → List β) : g.funcs.members list g.funcs.next = [] := by
    simp [Arena.members, Arena.view, Arena.get?_next]
  refine ⟨?_, ?_, ?_, ?_⟩
  · rw [Arena.members_push, Arena.link_mapRefs_mem]
    · refine h.params.attach hpnd (fun p hp => ?_) (by rw [hnew, List.append_nil])
      obtain ⟨param, hparam, hfree⟩ := hpfree p hp
      rw [Arena.link_of_get? hparam, hfree]
    · exact fun p hp => (hpfree p hp).imp fun _ h => h.1
    · exact fun _ => rfl
  · rw [Arena.members_push, Arena.link_mapRefs_mem]
    · refine h.blocks.attach hbnd (fun b hb => ?_) (by rw [hnew, List.append_nil])
      obtain ⟨block, hblock, hfree⟩ := hbfree b hb
      rw [Arena.link_of_get? hblock, hfree]
    · exact fun b hb => (hbfree b hb).imp fun _ h => h.1
    · exact fun _ => rfl
  · rw [Arena.members_mapRefs_of_eq]
    · exact h.insts
    · intro b x
      split <;> rfl
  · rw [Arena.members_mapRefs_of_eq]
    · exact h.terms
    · intro b x
      split <;> rfl

theorem pushBlock (h : g.Linked) (hb : g.pushBlock f b = .ok g') : g'.Linked := by
  obtain ⟨block, func, hblock, hfree, hfunc, rfl⟩ := pushBlock_eq_ok hb
  refine ⟨?_, ?_, ?_, ?_⟩
  · rw [Arena.members_onlyAt_of_eq]
    · exact h.params
    · exact fun _ => rfl
  · rw [Arena.members_mapRefs_onlyAt hfunc, Arena.link_mapRefs_onlyAt hblock]
    refine h.blocks.attach_one (by rw [Arena.link_of_get? hblock, hfree]) ?_
    rw [Arena.members_of_get? hfunc]
    exact List.perm_append_singleton b func.blocks
  · rw [Arena.members_onlyAt_of_eq]
    · exact h.insts
    · exact fun _ => rfl
  · rw [Arena.members_onlyAt_of_eq]
    · exact h.terms
    · exact fun _ => rfl

/-- Only the list of one block and the owner of one instruction change. -/
theorem moveInst (put : List InstRef → List InstRef) (own : Inst → Option BlockRef) (h : g.Linked)
    (hinsts : Placed
      ((g.blocks.mapRefs (onlyAt b fun x => { x with insts := put x.insts })).members Block.insts)
      ((g.insts.mapRefs (onlyAt i fun x => { x with owner := own x })).link Inst.owner)) :
    Linked { g with
      blocks := g.blocks.mapRefs (onlyAt b fun x => { x with insts := put x.insts })
      insts := g.insts.mapRefs (onlyAt i fun x => { x with owner := own x }) } := by
  refine ⟨h.params, ?_, hinsts, ?_⟩
  · rw [Arena.link_onlyAt_of_eq]
    · exact h.blocks
    · exact fun _ => rfl
  · rw [Arena.members_onlyAt_of_eq]
    · exact h.terms
    · exact fun _ => rfl

/-- A free instruction goes into a block, at any place. -/
theorem putInst {inst : Inst} {block : Block} (put : List InstRef → List InstRef) (h : g.Linked)
    (hi : g.insts.get? i = some inst) (hfree : inst.owner = none)
    (hb : g.blocks.get? b = some block) (hput : (put block.insts).Perm (i :: block.insts)) :
    Linked { g with
      blocks := g.blocks.mapRefs (onlyAt b fun x => { x with insts := put x.insts })
      insts := g.insts.mapRefs (onlyAt i fun x => { x with owner := some b }) } := by
  refine moveInst put _ h ?_
  rw [Arena.members_mapRefs_onlyAt hb, Arena.link_mapRefs_onlyAt hi]
  refine h.insts.attach_one (by rw [Arena.link_of_get? hi, hfree]) ?_
  rw [Arena.members_of_get? hb]
  exact hput

theorem pushInst (h : g.Linked) (hi : g.pushInst b i = .ok g') : g'.Linked := by
  obtain ⟨inst, block, hinst, hfree, hblock, rfl⟩ := pushInst_eq_ok hi
  exact putInst (· ++ [i]) h hinst hfree hblock (List.perm_append_singleton i block.insts)

theorem insertInstBefore (h : g.Linked) (hi : g.insertInstBefore b before i = .ok g') :
    g'.Linked := by
  obtain ⟨inst, block, insts, hinst, hfree, hblock, hinsts, rfl⟩ := insertInstBefore_eq_ok hi
  exact putInst (fun _ => insts) h hinst hfree hblock (perm_of_insertBefore? hinsts)

theorem removeInst (h : g.Linked) (hi : g.removeInst b i = .ok g') : g'.Linked := by
  obtain ⟨inst, block, hinst, hblock, rfl⟩ := removeInst_eq_ok hi
  refine moveInst (·.filter (· ≠ i)) _ h ?_
  rw [Arena.members_mapRefs_onlyAt hblock, Arena.link_mapRefs_onlyAt hinst]
  have hdetach := h.insts.detach (c := b) (x := i)
  rwa [Arena.members_of_get? hblock, Arena.link_of_get? hinst] at hdetach

theorem setTerm (h : g.Linked) (ht : g.setTerm b t = .ok g') : g'.Linked := by
  obtain ⟨term, block, hterm, howner, hblock, rfl⟩ := setTerm_eq_ok ht
  refine ⟨h.params, ?_, ?_, ?_⟩
  · rw [Arena.link_onlyAt_of_eq]
    · exact h.blocks
    · exact fun _ => rfl
  · rw [Arena.members_onlyAt_of_eq]
    · exact h.insts
    · exact fun _ => rfl
  · rw [Arena.members_mapRefs_onlyAt hblock]
    have hexchange := h.terms.exchange (c := b) (x := t) (by rwa [Arena.link_of_get? hterm])
    rw [Arena.members_of_get? hblock] at hexchange
    simp only [Option.toList_some]
    convert hexchange using 1
    funext r
    by_cases hr : r = t
    · simp [Arena.link, Arena.view, hterm, hr]
    · by_cases hold : block.term = some r
      all_goals cases hr' : g.terms.get? r <;> simp [Arena.link, Arena.view, hr', hr, hold]

/-- Every edit keeps lists and owners in step. -/
theorem apply {e : Edit} (h : g.Linked) (he : e.apply g = .ok g') : g'.Linked := by
  cases e with
  | addFunc func =>
    obtain ⟨f, he⟩ := return_snd_eq_ok_iff.mp he
    exact h.addFunc he
  | pushBlock => exact h.pushBlock he
  | pushInst => exact h.pushInst he
  | insertInstBefore => exact h.insertInstBefore he
  | removeInst => exact h.removeInst he
  | setTerm => exact h.setTerm he
  | replaceUse => exact h.replaceUse he
  | setInstKind => exact h.setInstKind he
  | setTermKind => exact h.setTermKind he
  | _ => exact h.of_quiet (.of_apply rfl he)

theorem run {edits : List Edit} (h : g.Linked) (hrun : g.run edits = .ok g') : g'.Linked :=
  run_induction (fun _ _ _ h he => h.apply he) h hrun

end Linked

theorem Reachable.linked {g : Graph} (h : g.Reachable) : g.Linked := by
  induction h with
  | empty => exact .empty
  | edit e _ _ he ih => exact ih.apply he

/-- After any run, lists and owners say the same, and nothing has two places in the graph. -/
theorem run_linked {edits : List Edit} {g : Graph} (h : empty.run edits = .ok g) :
    g.Linked ∧
      (g.funcs.refs.flatMap (g.funcs.members Func.params)).Nodup ∧
      (g.funcs.refs.flatMap (g.funcs.members Func.blocks)).Nodup ∧
      (g.blocks.refs.flatMap (g.blocks.members Block.insts)).Nodup ∧
      (g.blocks.refs.flatMap (g.blocks.members (·.term.toList))).Nodup := by
  have hlinked : g.Linked := Linked.empty.run h
  have hfuncs : g.funcs.refs.Nodup := g.funcs.nodup_refs
  have hblocks : g.blocks.refs.Nodup := g.blocks.nodup_refs
  exact ⟨hlinked, hlinked.params.nodup_flatMap hfuncs, hlinked.blocks.nodup_flatMap hfuncs,
    hlinked.insts.nodup_flatMap hblocks, hlinked.terms.nodup_flatMap hblocks⟩

theorem sampleGraph_linked :
    empty.run sampleRun = .ok sampleGraph ∧
      sampleGraph.funcs.members Func.blocks ⟨0⟩ = [⟨0⟩, ⟨1⟩] ∧
      sampleGraph.blocks.members Block.insts ⟨0⟩ = [⟨2⟩, ⟨1⟩] ∧
      sampleGraph.blocks.members (·.term.toList) ⟨0⟩ = [⟨1⟩] ∧ sampleGraph.Linked :=
  ⟨rfl, rfl, rfl, rfl, (run_linked (show empty.run sampleRun = .ok sampleGraph from rfl)).1⟩

end IrGraph.Graph
