import IrGraph.Proofs.Edit.Quiet
import IrGraph.Proofs.Slot.Rewrite

/-! Operands along runs. As long as no edit gives an owner another kind, its uses stay, and each
holds what was last put into it, whatever else the run does. -/

namespace IrGraph

namespace Edit

/-- What an edit puts into a use. -/
def written (u : Use) : Edit → Option Value
  | replaceUse u' v => if u' = u then some v else none
  | _ => none

/-- What a run puts into a use last. -/
def lastWritten (u : Use) (edits : List Edit) : Option Value :=
  (edits.filterMap (written u)).getLast?

/-- Whether an edit gives an owner another kind as a whole. -/
def rekinds (owner : Value) : Edit → Prop
  | setInstKind i _ => owner = .inst i
  | setTermKind t _ => owner = .term t
  | _ => False

theorem getD_written_replaceUse {u w : Use} {v a : Value} :
    ((replaceUse u v).written w).getD a = replaceAt u v w a := by
  unfold written replaceAt
  rcases eq_or_ne w u with rfl | hw
  · simp
  · simp [hw, hw.symm]

theorem getD_lastWritten_cons {u : Use} {e : Edit} {edits : List Edit} {v : Value} :
    (lastWritten u (e :: edits)).getD v = (lastWritten u edits).getD ((e.written u).getD v) := by
  unfold lastWritten
  cases he : e.written u with
  | none => simp [he]
  | some w => simp [he, List.getLast?_cons]

/-- Giving each use its own value, in any order and any number of times, leaves it there. -/
theorem lastWritten_replaceUses {value : Use → Value} {l : List Use} {u : Use} (hu : u ∈ l) :
    lastWritten u (l.map fun u => .replaceUse u (value u)) = some (value u) := by
  have hmem (v : Value) : v ∈ (l.map fun u => replaceUse u (value u)).filterMap (written u) ↔
      v = value u := by
    simp only [List.mem_filterMap, List.mem_map, exists_exists_and_eq_and, written]
    grind
  cases hlast : lastWritten u (l.map fun u => .replaceUse u (value u)) with
  | none =>
    rw [lastWritten, List.getLast?_eq_none_iff] at hlast
    have hin := (hmem (value u)).mpr rfl
    rw [hlast] at hin
    cases hin
  | some v => rw [(hmem v).mp (List.mem_of_getLast? hlast)]

end Edit

namespace Graph

variable {g g' : Graph} {owner v : Value} {u : Use} {i : InstRef} {t : TermRef}

/-- How long the lists of operands of an owner are. -/
def operandSizes (g : Graph) : Value → List Nat
  | .inst i => g.insts.members (·.kind.listSizes) i
  | .term t => g.terms.members (·.kind.listSizes) t
  | _ => []

section Listing

variable {l : List Use}

theorem instUses_eq_ok_iff : g.instUses i = .ok l ↔
    ∃ k, g.insts.view Inst.kind i = some k ∧ (k.operands.map Prod.fst).map (.inst i) = l := by
  simp only [instUses, bind_eq_ok_iff, pure_eq_ok_iff, Arena.get_eq_ok_iff]
  simp [Arena.view, Function.comp_def]

theorem termUses_eq_ok_iff : g.termUses t = .ok l ↔
    ∃ k, g.terms.view Term.kind t = some k ∧ (k.operands.map Prod.fst).map (.term t) = l := by
  simp only [termUses, bind_eq_ok_iff, pure_eq_ok_iff, Arena.get_eq_ok_iff]
  simp [Arena.view, Function.comp_def]

theorem user_of_mem_instUses (hl : g.instUses i = .ok l) (hu : u ∈ l) : u.user = .inst i := by
  obtain ⟨k, -, rfl⟩ := instUses_eq_ok_iff.mp hl
  obtain ⟨s, -, rfl⟩ := List.mem_map.mp hu
  rfl

theorem user_of_mem_termUses (hl : g.termUses t = .ok l) (hu : u ∈ l) : u.user = .term t := by
  obtain ⟨k, -, rfl⟩ := termUses_eq_ok_iff.mp hl
  obtain ⟨s, -, rfl⟩ := List.mem_map.mp hu
  rfl

theorem exists_readUse_of_mem_instUses (hsizes : Addressable (g.operandSizes (.inst i)))
    (hl : g.instUses i = .ok l) (hu : u ∈ l) : ∃ v, g.readUse u = .ok v := by
  obtain ⟨_, hk, rfl⟩ := instUses_eq_ok_iff.mp hl
  obtain ⟨x, hx, rfl⟩ := Arena.view_eq_some_iff.mp hk
  rw [operandSizes, Arena.members_of_get? hx] at hsizes
  obtain ⟨s, hs, rfl⟩ := List.mem_map.mp hu
  obtain ⟨⟨s, v⟩, hp, rfl⟩ := List.mem_map.mp hs
  exact ⟨v, readUse_inst_eq_ok_iff.mpr ⟨x, hx, Instruction.read_of_mem_operands hsizes hp⟩⟩

theorem exists_readUse_of_mem_termUses (hsizes : Addressable (g.operandSizes (.term t)))
    (hl : g.termUses t = .ok l) (hu : u ∈ l) : ∃ v, g.readUse u = .ok v := by
  obtain ⟨_, hk, rfl⟩ := termUses_eq_ok_iff.mp hl
  obtain ⟨x, hx, rfl⟩ := Arena.view_eq_some_iff.mp hk
  rw [operandSizes, Arena.members_of_get? hx] at hsizes
  obtain ⟨s, hs, rfl⟩ := List.mem_map.mp hu
  obtain ⟨⟨s, v⟩, hp, rfl⟩ := List.mem_map.mp hs
  exact ⟨v, readUse_term_eq_ok_iff.mpr ⟨x, hx, Terminator.read_of_mem_operands hsizes hp⟩⟩

end Listing

section Step

variable {mid : Graph} {φ ψ : Use → Value → Value}

/-- The kind that an owner has is the same but for its operands, which change by what their uses
say. -/
def Rewritten (φ : Use → Value → Value) (g g' : Graph) : Value → Prop
  | .inst i => ∀ k, g.insts.view Inst.kind i = some k →
    g'.insts.view Inst.kind i = some (k.mapOperands fun s => φ (.inst i s))
  | .term t => ∀ k, g.terms.view Term.kind t = some k →
    g'.terms.view Term.kind t = some (k.mapOperands fun s => φ (.term t s))
  | _ => True

theorem Rewritten.trans (h : Rewritten φ g mid owner) (h' : Rewritten ψ mid g' owner) :
    Rewritten (fun u a => ψ u (φ u a)) g g' owner := by
  cases owner
  case inst i =>
    intro k hk
    rw [h' _ (h k hk), Instruction.mapOperands_mapOperands]
  case term t =>
    intro k hk
    rw [h' _ (h k hk), Terminator.mapOperands_mapOperands]
  all_goals trivial

theorem Rewritten.of_kept (hφ : ∀ u a, φ u a = a)
    (hi : ∀ i k, owner = .inst i → g.insts.view Inst.kind i = some k →
      g'.insts.view Inst.kind i = some k)
    (ht : ∀ t k, owner = .term t → g.terms.view Term.kind t = some k →
      g'.terms.view Term.kind t = some k) : Rewritten φ g g' owner := by
  cases owner
  case inst i =>
    intro k hk
    rw [hi i k rfl hk, Instruction.mapOperands_eq_self fun s a _ => hφ _ a]
  case term t =>
    intro k hk
    rw [ht t k rfl hk, Terminator.mapOperands_eq_self fun s a _ => hφ _ a]
  all_goals trivial

theorem Rewritten.of_views_eq (hφ : ∀ u a, φ u a = a)
    (hi : g'.insts.view Inst.kind = g.insts.view Inst.kind)
    (ht : g'.terms.view Term.kind = g.terms.view Term.kind) : Rewritten φ g g' owner :=
  .of_kept hφ (fun _ _ _ hk => hi ▸ hk) fun _ _ _ hk => ht ▸ hk

theorem rewritten_mapUses (g : Graph) (φ : Use → Value → Value) (owner : Value) :
    Rewritten φ g (g.mapUses φ) owner := by
  cases owner
  case inst i =>
    intro k hk
    obtain ⟨x, hx, rfl⟩ := Arena.view_eq_some_iff.mp hk
    simp [Arena.view, insts_mapUses, hx]
  case term t =>
    intro k hk
    obtain ⟨x, hx, rfl⟩ := Arena.view_eq_some_iff.mp hk
    simp [Arena.view, terms_mapUses, hx]
  all_goals trivial

/-- The list of uses stays as it is. -/
theorem Rewritten.instUses {l : List Use} (h : Rewritten φ g g' (.inst i))
    (hl : g.instUses i = .ok l) : g'.instUses i = .ok l := by
  obtain ⟨k, hk, rfl⟩ := instUses_eq_ok_iff.mp hl
  exact instUses_eq_ok_iff.mpr ⟨_, h k hk, by rw [Instruction.slots_mapOperands]⟩

theorem Rewritten.termUses {l : List Use} (h : Rewritten φ g g' (.term t))
    (hl : g.termUses t = .ok l) : g'.termUses t = .ok l := by
  obtain ⟨k, hk, rfl⟩ := termUses_eq_ok_iff.mp hl
  exact termUses_eq_ok_iff.mpr ⟨_, h k hk, by rw [Terminator.slots_mapOperands]⟩

theorem Rewritten.readUse (h : Rewritten φ g g' u.user) (hu : g.readUse u = .ok v) :
    g'.readUse u = .ok (φ u v) := by
  cases u with
  | inst i s =>
    obtain ⟨x, hx, hread⟩ := readUse_inst_eq_ok_iff.mp hu
    obtain ⟨y, hy, hkind⟩ :=
      Arena.view_eq_some_iff.mp (h _ (Arena.view_eq_some_iff.mpr ⟨x, hx, rfl⟩))
    refine readUse_inst_eq_ok_iff.mpr ⟨y, hy, ?_⟩
    rw [hkind, Instruction.read_mapOperands, hread, Option.map_some]
  | term t s =>
    obtain ⟨x, hx, hread⟩ := readUse_term_eq_ok_iff.mp hu
    obtain ⟨y, hy, hkind⟩ :=
      Arena.view_eq_some_iff.mp (h _ (Arena.view_eq_some_iff.mpr ⟨x, hx, rfl⟩))
    refine readUse_term_eq_ok_iff.mpr ⟨y, hy, ?_⟩
    rw [hkind, Terminator.read_mapOperands, hread, Option.map_some]

theorem rewritten_setInstKind {kind : Instruction} (h : g.setInstKind i kind = .ok g')
    (ho : owner ≠ .inst i) (hφ : ∀ u a, φ u a = a) : Rewritten φ g g' owner := by
  obtain ⟨-, rfl⟩ := setInstKind_eq_ok h
  refine .of_kept hφ (fun j k hj hk => ?_) fun _ _ _ hk => hk
  rwa [Arena.view_mapRefs_onlyAt_of_ne]
  rintro rfl
  exact ho hj

theorem rewritten_setTermKind {kind : Terminator} (h : g.setTermKind t kind = .ok g')
    (ho : owner ≠ .term t) (hφ : ∀ u a, φ u a = a) : Rewritten φ g g' owner := by
  obtain ⟨-, rfl⟩ := setTermKind_eq_ok h
  refine .of_kept hφ (fun _ _ _ hk => hk) fun s k hs hk => ?_
  rwa [Arena.view_mapRefs_onlyAt_of_ne]
  rintro rfl
  exact ho hs

/-- An edit that does not give the owner another kind puts into its uses what it writes. -/
theorem rewritten_apply {e : Edit} (hkind : ¬e.rekinds owner) (h : e.apply g = .ok g') :
    Rewritten (fun u a => (e.written u).getD a) g g' owner := by
  cases e with
  | replaceUse u v =>
    obtain ⟨-, rfl⟩ := replaceUse_eq_ok_iff.mp h
    simp only [Edit.getD_written_replaceUse]
    exact rewritten_mapUses g (replaceAt u v) owner
  | setInstKind i kind => exact rewritten_setInstKind h hkind fun _ _ => rfl
  | setTermKind t kind => exact rewritten_setTermKind h hkind fun _ _ => rfl
  -- what attaches and detaches leaves every kind alone
  | addFunc func =>
    obtain ⟨f, h⟩ := return_snd_eq_ok_iff.mp h
    obtain ⟨-, -, -, rfl⟩ := addFunc_eq_ok h
    exact .of_views_eq (fun _ _ => rfl) rfl rfl
  | pushBlock f b =>
    obtain ⟨_, _, -, -, -, rfl⟩ := pushBlock_eq_ok h
    exact .of_views_eq (fun _ _ => rfl) rfl rfl
  | pushInst b i =>
    obtain ⟨_, _, -, -, -, rfl⟩ := pushInst_eq_ok h
    refine .of_views_eq (fun _ _ => rfl) ?_ rfl
    rw [Arena.view_onlyAt_of_eq]
    exact fun _ => rfl
  | insertInstBefore b before i =>
    obtain ⟨_, _, _, -, -, -, -, rfl⟩ := insertInstBefore_eq_ok h
    refine .of_views_eq (fun _ _ => rfl) ?_ rfl
    rw [Arena.view_onlyAt_of_eq]
    exact fun _ => rfl
  | removeInst b i =>
    obtain ⟨_, _, -, -, rfl⟩ := removeInst_eq_ok h
    refine .of_views_eq (fun _ _ => rfl) ?_ rfl
    rw [Arena.view_onlyAt_of_eq]
    exact fun _ => rfl
  | setTerm b t =>
    obtain ⟨_, _, -, -, -, rfl⟩ := setTerm_eq_ok h
    refine .of_views_eq (fun _ _ => rfl) rfl ?_
    apply Arena.view_mapRefs_of_eq
    intro r x
    split
    · rfl
    · split <;> rfl
  | _ =>
    have hq : Quiet g g' := .of_apply rfl h
    exact .of_kept (fun _ _ => rfl) (fun _ _ _ hk => hq.insts.kept_part (·.1) hk)
      fun _ _ _ hk => hq.terms.kept_part (·.1) hk

end Step

section Run

variable {edits : List Edit}

theorem rewritten_run (hkind : ∀ e ∈ edits, ¬e.rekinds owner) (h : g.run edits = .ok g') :
    Rewritten (fun u a => (Edit.lastWritten u edits).getD a) g g' owner := by
  induction edits generalizing g with
  | nil =>
    cases h
    exact .of_views_eq (fun _ _ => rfl) rfl rfl
  | cons e edits ih =>
    obtain ⟨mid, he, hrest⟩ := run_cons_eq_ok_iff.mp h
    simp only [Edit.getD_lastWritten_cons]
    exact (rewritten_apply (hkind e List.mem_cons_self) he).trans
      (ih (fun e he => hkind e (List.mem_cons_of_mem _ he)) hrest)

end Run

section Func

variable {f : FuncRef} {l : List Use}

/-- Uses that can be read can all be given new values. -/
theorem exists_run_replaceUses (value : Use → Value) (h : ∀ u ∈ l, ∃ a, g.readUse u = .ok a) :
    ∃ g', g.run (l.map fun u => .replaceUse u (value u)) = .ok g' ∧
      g'.funcs = g.funcs ∧ g'.blocks = g.blocks := by
  induction l generalizing g with
  | nil => exact ⟨g, rfl, rfl, rfl⟩
  | cons w l ih =>
    obtain ⟨a, ha⟩ := h w List.mem_cons_self
    have hmid := replaceUse_of_readUse ha (value w)
    have hreads : ∀ u ∈ l, ∃ a, (g.mapUses (replaceAt w (value w))).readUse u = .ok a := by
      intro u hu
      obtain ⟨b, hb⟩ := h u (List.mem_cons_of_mem w hu)
      exact ⟨_, readUse_mapUses_eq_ok_iff.mpr ⟨b, hb, rfl⟩⟩
    obtain ⟨g', hrun, hfuncs, hblocks⟩ := ih hreads
    exact ⟨g', run_cons_eq_ok_iff.mpr ⟨_, hmid, hrun⟩, hfuncs, hblocks⟩

/-- Uses of functions follow from the layout and from the uses of each instruction and
terminator. -/
theorem funcUses_mono (hfuncs : g'.funcs = g.funcs) (hblocks : g'.blocks = g.blocks)
    (hinst : ∀ i l, g.instUses i = .ok l → g'.instUses i = .ok l)
    (hterm : ∀ t l, g.termUses t = .ok l → g'.termUses t = .ok l) (h : g.funcUses f = .ok l) :
    g'.funcUses f = .ok l := by
  have hbody (func : Func) : g'.body func = g.body func := by rw [body, body, hblocks]
  simp only [funcUses, hfuncs, hbody, bind_eq_ok_iff] at h ⊢
  obtain ⟨func, hfunc, body, hbody, parts, hparts, h⟩ := h
  refine ⟨func, hfunc, body, hbody, parts, mapM_mono ?_ hparts, h⟩
  rintro ⟨b, block⟩ - part hpart
  simp only [blockUses, bind_eq_ok_iff] at hpart ⊢
  obtain ⟨insts, hinsts, terms, hterms, hpart⟩ := hpart
  exact ⟨insts, mapM_mono (fun i _ => hinst i) hinsts, terms, mapM_mono (fun t _ => hterm t) hterms,
    hpart⟩

theorem exists_readUse_of_mem_funcUses (hl : g.funcUses f = .ok l) (hu : u ∈ l)
    (hsizes : Addressable (g.operandSizes u.user)) : ∃ v, g.readUse u = .ok v := by
  simp only [funcUses, bind_eq_ok_iff, pure_eq_ok_iff] at hl
  obtain ⟨func, -, body, -, parts, hparts, rfl⟩ := hl
  obtain ⟨part, hpart, hu⟩ := List.mem_flatten.mp hu
  obtain ⟨⟨b, block⟩, -, hblock⟩ := exists_of_mem_mapM hparts hpart
  simp only [blockUses, bind_eq_ok_iff, pure_eq_ok_iff] at hblock
  obtain ⟨insts, hinsts, terms, hterms, rfl⟩ := hblock
  rcases List.mem_append.mp hu with hu | hu
  · obtain ⟨uses, huses, hu⟩ := List.mem_flatten.mp hu
    obtain ⟨i, -, hi⟩ := exists_of_mem_mapM hinsts huses
    rw [user_of_mem_instUses hi hu] at hsizes
    exact exists_readUse_of_mem_instUses hsizes hi hu
  · obtain ⟨uses, huses, hu⟩ := List.mem_flatten.mp hu
    obtain ⟨t, -, ht⟩ := exists_of_mem_mapM hterms huses
    rw [user_of_mem_termUses ht hu] at hsizes
    exact exists_readUse_of_mem_termUses hsizes ht hu

end Func

section Main

theorem instUses_run {edits : List Edit} {l : List Use}
    (hkind : ∀ kind, .setInstKind i kind ∉ edits) (h : g.run edits = .ok g')
    (hl : g.instUses i = .ok l) :
    g'.instUses i = .ok l ∧ (Addressable (g.operandSizes (.inst i)) →
      ∀ u ∈ l, ∃ v, g.readUse u = .ok v ∧
        g'.readUse u = .ok ((Edit.lastWritten u edits).getD v)) := by
  have hkind' : ∀ e ∈ edits, ¬e.rekinds (.inst i) := by
    intro e he hre
    cases e <;> simp only [Edit.rekinds, Value.inst.injEq, reduceCtorEq] at hre
    subst hre
    exact hkind _ he
  have hrun := rewritten_run hkind' h
  refine ⟨hrun.instUses hl, fun hsizes u hu => ?_⟩
  obtain ⟨v, hv⟩ := exists_readUse_of_mem_instUses hsizes hl hu
  rw [← user_of_mem_instUses hl hu] at hrun
  exact ⟨v, hv, hrun.readUse hv⟩

theorem termUses_run {edits : List Edit} {l : List Use}
    (hkind : ∀ kind, .setTermKind t kind ∉ edits) (h : g.run edits = .ok g')
    (hl : g.termUses t = .ok l) :
    g'.termUses t = .ok l ∧ (Addressable (g.operandSizes (.term t)) →
      ∀ u ∈ l, ∃ v, g.readUse u = .ok v ∧
        g'.readUse u = .ok ((Edit.lastWritten u edits).getD v)) := by
  have hkind' : ∀ e ∈ edits, ¬e.rekinds (.term t) := by
    intro e he hre
    cases e <;> simp only [Edit.rekinds, Value.term.injEq, reduceCtorEq] at hre
    subst hre
    exact hkind _ he
  have hrun := rewritten_run hkind' h
  refine ⟨hrun.termUses hl, fun hsizes u hu => ?_⟩
  obtain ⟨v, hv⟩ := exists_readUse_of_mem_termUses hsizes hl hu
  rw [← user_of_mem_termUses hl hu] at hrun
  exact ⟨v, hv, hrun.readUse hv⟩

/-- Uses are cells: along a run that does not give their owner another kind, the owner lists the
same uses, and when its lists of operands have at most 2³² members, each use holds what was last put
into it. So all uses of a function can be replaced, in any order, and afterwards hold what they were
given. -/
theorem uses_hold_last_written (g : Graph) :
    (∀ i l, g.instUses i = .ok l → ∀ edits g', (∀ kind, .setInstKind i kind ∉ edits) →
      g.run edits = .ok g' → g'.instUses i = .ok l ∧
        (Addressable (g.operandSizes (.inst i)) → ∀ u ∈ l, ∃ v, g.readUse u = .ok v ∧
          g'.readUse u = .ok ((Edit.lastWritten u edits).getD v))) ∧
    (∀ t l, g.termUses t = .ok l → ∀ edits g', (∀ kind, .setTermKind t kind ∉ edits) →
      g.run edits = .ok g' → g'.termUses t = .ok l ∧
        (Addressable (g.operandSizes (.term t)) → ∀ u ∈ l, ∃ v, g.readUse u = .ok v ∧
          g'.readUse u = .ok ((Edit.lastWritten u edits).getD v))) ∧
    ∀ f l, g.funcUses f = .ok l → (∀ u ∈ l, Addressable (g.operandSizes u.user)) →
      ∀ (order : List Use) (value : Use → Value), order.Perm l →
        ∃ g', g.run (order.map fun u => .replaceUse u (value u)) = .ok g' ∧
          g'.funcUses f = .ok l ∧ l.mapM g'.readUse = .ok (l.map value) := by
  refine ⟨fun i l hl edits g' hkind h => instUses_run hkind h hl,
    fun t l hl edits g' hkind h => termUses_run hkind h hl, ?_⟩
  intro f l hl hsizes order value hperm
  have hread (u : Use) (hu : u ∈ l) : ∃ v, g.readUse u = .ok v :=
    exists_readUse_of_mem_funcUses hl hu (hsizes u hu)
  obtain ⟨g', hrun, hfuncs, hblocks⟩ :=
    exists_run_replaceUses value fun u hu => hread u (hperm.mem_iff.mp hu)
  have hkind (owner : Value) : ∀ e ∈ order.map fun u => Edit.replaceUse u (value u),
      ¬e.rekinds owner := by
    intro e he
    obtain ⟨u, -, rfl⟩ := List.mem_map.mp he
    exact id
  have hcells (owner : Value) := rewritten_run (hkind owner) hrun
  refine ⟨g', hrun, funcUses_mono hfuncs hblocks ?_ ?_ hl, ?_⟩
  · exact fun i l hl => (hcells (.inst i)).instUses hl
  · exact fun t l hl => (hcells (.term t)).termUses hl
  · have hnew : ∀ u ∈ l, g'.readUse u = .ok (value u) := by
      intro u hu
      obtain ⟨v, hv⟩ := hread u hu
      have hlast := (hcells u.user).readUse hv
      rwa [Edit.lastWritten_replaceUses (hperm.mem_iff.mpr hu)] at hlast
    simpa using mapM_map_eq_ok (f := id) hnew

/-- Writes one use twice and moves its owner about in between. -/
def sampleRewrites : List Edit :=
  [.replaceUse (.inst ⟨1⟩ .x) (.const ⟨0⟩), .removeInst ⟨0⟩ ⟨1⟩, .setTerm ⟨0⟩ ⟨1⟩,
    .replaceUse (.inst ⟨1⟩ .x) (.const ⟨1⟩), .pushInst ⟨1⟩ ⟨1⟩]

theorem sampleGraph_uses_hold :
    (∃ g', sampleGraph.run sampleRewrites = .ok g' ∧
      (g'.instUses ⟨1⟩ = .ok [.inst ⟨1⟩ .x, .inst ⟨1⟩ .y] ∧
        g'.readUse (.inst ⟨1⟩ .x) = .ok (.const ⟨1⟩) ∧
        g'.readUse (.inst ⟨1⟩ .y) = .ok (.param ⟨0⟩)) ∧
      g'.termUses ⟨1⟩ = .ok [.term ⟨1⟩ .x] ∧
      g'.readUse (.term ⟨1⟩ .x) = .ok (.inst ⟨1⟩)) ∧
    ∃ g', sampleGraph.run [.replaceUse (.term ⟨1⟩ .x) (.const ⟨2⟩),
        .replaceUse (.inst ⟨1⟩ .x) (.const ⟨2⟩), .replaceUse (.inst ⟨1⟩ .y) (.const ⟨2⟩)] = .ok g' ∧
      g'.funcUses ⟨0⟩ = .ok [.inst ⟨1⟩ .x, .inst ⟨1⟩ .y, .term ⟨1⟩ .x] ∧
      [.inst ⟨1⟩ .x, .inst ⟨1⟩ .y, .term ⟨1⟩ .x].mapM g'.readUse =
        .ok [.const ⟨2⟩, .const ⟨2⟩, .const ⟨2⟩] := by
  obtain ⟨hinst, hterm, hfunc⟩ := uses_hold_last_written sampleGraph
  obtain ⟨g', hrun⟩ : ∃ g', sampleGraph.run sampleRewrites = .ok g' := ⟨_, rfl⟩
  refine ⟨⟨g', hrun, ?_, ?_⟩, ?_⟩
  · obtain ⟨huses, hcells⟩ := hinst ⟨1⟩ _ rfl sampleRewrites g' (by simp [sampleRewrites]) hrun
    obtain ⟨_, ⟨⟩, hx⟩ := hcells (by decide) (.inst ⟨1⟩ .x) (by decide)
    obtain ⟨_, ⟨⟩, hy⟩ := hcells (by decide) (.inst ⟨1⟩ .y) (by decide)
    exact ⟨huses, hx, hy⟩
  · obtain ⟨huses, hcells⟩ := hterm ⟨1⟩ _ rfl sampleRewrites g' (by simp [sampleRewrites]) hrun
    obtain ⟨_, ⟨⟩, hx⟩ := hcells (by decide) (.term ⟨1⟩ .x) (by decide)
    exact ⟨huses, hx⟩
  · exact hfunc ⟨0⟩ _ rfl (by decide) [.term ⟨1⟩ .x, .inst ⟨1⟩ .x, .inst ⟨1⟩ .y]
      (fun _ => .const ⟨2⟩) (by decide)

end Main

end Graph

end IrGraph
