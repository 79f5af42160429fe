import IrGraph.Proofs.Numbering.Assign

/-! Taking numbers back. After it only parameters can have stale numbers, so a numbering that
follows goes through unless one of those is out of order. -/

namespace IrGraph.Graph

/-- The unnamed blocks, instructions and terminators of a function have no number. -/
def cleared (g : Graph) (f : FuncRef) : Graph :=
  g.mapIdents fun v ident =>
    if g.homeOf? v = some f ∧ ¬v.isParam ∧ ident.isUnnamed then { ident with id := none } else ident

/-- The unnamed parameters of a function, in order. -/
def unnamedParams (g : Graph) (f : FuncRef) : List Value :=
  (g.paramPlaces f).filter g.takesNumber

variable {g : Graph} {f : FuncRef} {func : Func} {v : Value} {l : List Value}

section Cleared

theorem dropNumber_eq (ident : Ident) :
    ident.dropNumber = if ident.isUnnamed then { ident with id := none } else ident := by
  obtain ⟨_ | name, id⟩ := ident <;> rfl

theorem dropNumber_dropNumber (ident : Ident) : ident.dropNumber.dropNumber = ident.dropNumber := by
  obtain ⟨_ | name, id⟩ := ident <;> rfl

theorem foldlM_dropNumber (hthere : ∀ v ∈ l, ∃ ident, g.identOf? v = some ident) :
    l.foldlM (fun g v => g.modifyIdent v Ident.dropNumber) g =
      .ok (g.mapIdents fun v ident => if v ∈ l then ident.dropNumber else ident) := by
  induction l generalizing g with
  | nil =>
    rw [mapIdents_eq_self fun _ _ _ => by simp]
    rfl
  | cons v l ih =>
    obtain ⟨ident, hident⟩ := hthere v List.mem_cons_self
    have hthere' : ∀ w ∈ l, ∃ ident,
        (g.mapIdents (onlyAt v Ident.dropNumber)).identOf? w = some ident := by
      intro w hw
      obtain ⟨ident, hident⟩ := hthere w (List.mem_cons_of_mem v hw)
      exact ⟨_, by rw [identOf?_mapIdents, hident]; rfl⟩
    rw [List.foldlM_cons, modifyIdent_of_identOf? hident]
    change l.foldlM _ (g.mapIdents (onlyAt v Ident.dropNumber)) = _
    rw [ih hthere', mapIdents_mapIdents]
    congr 1
    refine mapIdents_congr fun w ident _ => ?_
    by_cases hw : w = v
    · by_cases hl : w ∈ l <;> simp [onlyAt, hw, dropNumber_dropNumber]
    · simp [onlyAt, hw]

theorem resetNames_eq_cleared (h : g.Linked) (hf : g.funcs.get? f = some func) :
    g.resetNames f = .ok (g.cleared f) := by
  have hthere : ∀ v ∈ g.bodyPlaces f, ∃ ident, g.identOf? v = some ident :=
    fun v hv => exists_identOf?_of_mem h (List.mem_append_right _ hv)
  have hreset : g.resetNames f =
      .ok (g.mapIdents fun v ident => if v ∈ g.bodyPlaces f then ident.dropNumber else ident) := by
    rw [← foldlM_dropNumber hthere, resetNames, Arena.get_eq_ok_iff.mpr hf]
    change (do (← g.layout func).foldlM _ g) = _
    rw [layout_eq_bodyPlaces h hf]
    rfl
  rw [hreset]
  congr 1
  refine mapIdents_congr fun w ident _ => ?_
  rw [dropNumber_eq]
  by_cases hhome : g.homeOf? w = some f ∧ ¬w.isParam
  · simp [mem_bodyPlaces_iff h, hhome]
  · rw [if_neg fun hw => hhome ((mem_bodyPlaces_iff h).mp hw),
      if_neg fun hall => hhome ⟨hall.1, hall.2.1⟩]

theorem cleared_cleared (g : Graph) (f : FuncRef) : (g.cleared f).cleared f = g.cleared f := by
  rw [cleared, cleared, mapIdents_mapIdents]
  refine mapIdents_congr fun w ident _ => ?_
  rw [homeOf?_mapIdents]
  by_cases hclear : g.homeOf? w = some f ∧ ¬w.isParam ∧ ident.isUnnamed
  · rw [if_pos hclear, if_pos ⟨hclear.1, hclear.2.1, hclear.2.2⟩]
  · rw [if_neg hclear, if_neg hclear]

theorem unnamedLocals_cleared (g : Graph) (f : FuncRef) :
    (g.cleared f).unnamedLocals f = g.unnamedLocals f := by
  refine unnamedLocals_mapIdents (fun v ident => ?_) f
  split <;> rfl

theorem idOf?_cleared (hv : v ∈ g.unnamedLocals f) (h : g.Linked) :
    (g.cleared f).idOf? v = if v.isParam then g.idOf? v else none := by
  obtain ⟨hplace, htakes⟩ := List.mem_filter.mp hv
  rw [takesNumber, Bool.and_eq_true] at htakes
  obtain ⟨ident, hident⟩ := exists_identOf?_of_mem h hplace
  have hunnamed : ident.isUnnamed := by simpa [hident] using htakes.2
  by_cases hparam : v.isParam
  · simp [idOf?, cleared, hident, hparam]
  · simp [idOf?, cleared, hident, hparam, hunnamed, (mem_places_iff h).mp hplace]

/-- After clearing, numbers fit when those of the parameters do. -/
theorem fits_cleared_iff (h : g.Linked) :
    (g.cleared f).Fits 0 (g.unnamedLocals f) ↔ g.Fits 0 (g.unnamedParams f) := by
  have hsplit : g.unnamedLocals f = g.unnamedParams f ++ (g.bodyPlaces f).filter g.takesNumber :=
    List.filter_append ..
  have hparam {v : Value} (hv : v ∈ g.unnamedParams f) : v.isParam :=
    ((mem_paramPlaces_iff h).mp (List.mem_of_mem_filter hv)).2
  constructor
  · intro hfits k v id hk hid
    have hv : v ∈ g.unnamedParams f := List.mem_of_getElem? hk
    refine hfits k v id ?_ ?_
    · obtain ⟨hlt, -⟩ := List.getElem?_eq_some_iff.mp hk
      rw [hsplit, List.getElem?_append_left hlt, hk]
    · rw [idOf?_cleared (hsplit ▸ List.mem_append_left _ hv) h, if_pos (hparam hv), hid]
  · intro hfits k v id hk hid
    have hv : v ∈ g.unnamedLocals f := List.mem_of_getElem? hk
    rw [idOf?_cleared hv h] at hid
    split at hid
    · rename_i hv
      rw [hsplit, List.getElem?_append] at hk
      split at hk
      · exact hfits k v id hk hid
      · have hbody := List.mem_of_mem_filter (List.mem_of_getElem? hk)
        exact absurd hv ((mem_bodyPlaces_iff h).mp hbody).2
    · cases hid

end Cleared

theorem Reachable.cleared (h : g.Reachable) (hf : g.funcs.get? f = some func) :
    (g.cleared f).Reachable :=
  h.edit (.resetNames f) (by simp [Edit.types]) (resetNames_eq_cleared h.linked hf)

/-- Taking numbers back takes those of the unnamed blocks, instructions and terminators of a
function and changes nothing else, a second time nothing at all. Numbering goes through after it
when the numbers of unnamed parameters are those of their positions, whatever numbers there were
elsewhere. Two faults are excluded: the counter overflows where there are as many values as
numbers, and the question whether a type is void is out of range for a type that the table has not
handed out. -/
theorem resetNames_assignIds (h : g.Reachable) (hf : g.funcs.get? f = some func) :
    g.resetNames f = .ok (g.cleared f) ∧
      (g.cleared f).resetNames f = .ok (g.cleared f) ∧
      ((g.unnamedLocals f).length < UInt32.size →
        ∃ outcome g', (g.cleared f).assignIds f = .ok (outcome, g') ∧
          (outcome = none ↔
            ∀ k v id, (g.unnamedParams f)[k]? = some v → g.idOf? v = some id → id = k) ∧
          (outcome = none → g' = (g.cleared f).numbered 0 (g.unnamedLocals f) ∧
            ∀ k v, (g.unnamedLocals f)[k]? = some v → g'.idOf? v = some k)) := by
  have hcleared : (g.cleared f).Reachable := h.cleared hf
  have hagain := resetNames_eq_cleared hcleared.linked hf
  rw [cleared_cleared] at hagain
  refine ⟨resetNames_eq_cleared h.linked hf, hagain, fun hroom => ?_⟩
  rw [← unnamedLocals_cleared] at hroom
  obtain ⟨outcome, g', ha, hn⟩ := assignIds_outcome hcleared hf hroom
  rw [unnamedLocals_cleared] at hn
  refine ⟨outcome, g', ha, ?_, ?_⟩
  · rw [hn.eq_none_iff, fits_cleared_iff h.linked]
    simp [Fits]
  · rintro rfl
    refine ⟨hn.eq_numbered, fun k v hk => hn.idOf?_eq (nodup_unnamedLocals h.linked f) ?_ hk⟩
    intro w hw
    rw [← unnamedLocals_cleared] at hw
    exact exists_identOf?_of_mem_unnamedLocals hcleared.linked hw

/-- The sample's stale number goes, and the sample can be numbered. -/
theorem sampleGraph_resetNames :
    (∃ func, sampleGraph.funcs.get? ⟨0⟩ = some func) ∧
      (sampleGraph.unnamedLocals ⟨0⟩).length < UInt32.size ∧
      sampleGraph.idOf? (.inst ⟨1⟩) = some 3 ∧ (sampleGraph.cleared ⟨0⟩).idOf? (.inst ⟨1⟩) = none ∧
      sampleGraph.resetNames ⟨0⟩ = .ok (sampleGraph.cleared ⟨0⟩) ∧
      ∃ g', (sampleGraph.cleared ⟨0⟩).assignIds ⟨0⟩ = .ok (none, g') ∧
        g'.idOf? (.param ⟨0⟩) = some 0 ∧ g'.idOf? (.block ⟨0⟩) = some 1 ∧
        g'.idOf? (.inst ⟨1⟩) = some 2 := by
  obtain ⟨hreset, -, hassign⟩ := resetNames_assignIds (f := ⟨0⟩) reachable_sampleGraph rfl
  obtain ⟨outcome, g', ha, hiff, hnumbers⟩ := hassign (by decide)
  have hrun : (sampleGraph.cleared ⟨0⟩).assignIds ⟨0⟩ = .ok (none, _) := rfl
  obtain rfl : none = outcome := congrArg Prod.fst (Except.ok.inj (hrun.symm.trans ha))
  obtain ⟨-, hids⟩ := hnumbers rfl
  exact ⟨⟨_, rfl⟩, by decide, rfl, rfl, hreset, g', ha, hids 0 _ rfl, hids 1 _ rfl, hids 2 _ rfl⟩

section Long

/-- A function gets one more block, with one instruction. -/
theorem Reachable.lengthen (h : g.Reachable) (hf : g.funcs.get? f = some func)
    (htype : g.types.Has .pointer) :
    Reachable { g with
      funcs := g.funcs.set f { func with blocks := func.blocks ++ [g.blocks.next] }
      blocks := g.blocks.push ⟨.anonymous, [g.insts.next], none, some f⟩
      insts := g.insts.push ⟨.phi .pointer [], .pointer, .anonymous, some g.blocks.next⟩ } := by
  have hblock : Reachable { g with blocks := g.blocks.push ⟨.anonymous, [], none, none⟩ } :=
    h.edit (.addBlock .anonymous) (by simp [Edit.types]) rfl
  have hpushed : Reachable { g with
      funcs := g.funcs.set f { func with blocks := func.blocks ++ [g.blocks.next] }
      blocks := g.blocks.push ⟨.anonymous, [], none, some f⟩ } := by
    refine hblock.edit (.pushBlock f g.blocks.next) (by simp [Edit.types]) ?_
    simp only [Edit.apply, pushBlock, claimBlock, Arena.get, Arena.get?_push_next,
      Arena.set_push_next, ok_bind,
      pure_bind, Arena.modify, hf]
    rfl
  have hinst : Reachable { g with
      funcs := g.funcs.set f { func with blocks := func.blocks ++ [g.blocks.next] }
      blocks := g.blocks.push ⟨.anonymous, [], none, some f⟩
      insts := g.insts.push ⟨.phi .pointer [], .pointer, .anonymous, none⟩ } :=
    hpushed.edit (.addInst (.phi .pointer []) .anonymous) (by simpa [Edit.types, Instruction.types])
      rfl
  refine hinst.edit (.pushInst g.blocks.next g.insts.next) (by simp [Edit.types]) ?_
  simp only [Edit.apply, pushInst, freeInst, Arena.get, Arena.get?_push_next, Arena.set_push_next,
    ok_bind, Arena.modify]
  rfl

/-- A function of `n` blocks with one instruction each, none of which has a name or a number. -/
def longGraph (n : Nat) : Graph :=
  { empty with
    funcs := ⟨#[⟨"f", .void, [], (List.range n).map Ref.mk, none, none, none, []⟩]⟩
    blocks := ⟨(Array.range n).map fun i => ⟨.anonymous, [⟨i⟩], none, some ⟨0⟩⟩⟩
    insts := ⟨(Array.range n).map fun i => ⟨.phi .pointer [], .pointer, .anonymous, some ⟨i⟩⟩⟩ }

theorem longGraph_zero : longGraph 0 =
    { empty with funcs := ⟨#[⟨"f", .void, [], [], none, none, none, []⟩]⟩ } := by
  simp [longGraph, empty, Arena.empty]

theorem longGraph_succ (n : Nat) : longGraph (n + 1) =
    { longGraph n with
      funcs := (longGraph n).funcs.set ⟨0⟩ ⟨"f", .void, [],
        (List.range n).map Ref.mk ++ [(longGraph n).blocks.next], none, none, none, []⟩
      blocks := (longGraph n).blocks.push ⟨.anonymous, [(longGraph n).insts.next], none, some ⟨0⟩⟩
      insts := (longGraph n).insts.push
        ⟨.phi .pointer [], .pointer, .anonymous, some (longGraph n).blocks.next⟩ } := by
  simp [longGraph, Arena.push, Arena.set, Arena.next, Arena.size, Array.range_succ,
    List.range_succ]

theorem reachable_longGraph (n : Nat) : (longGraph n).Reachable := by
  induction n with
  | zero =>
    rw [longGraph_zero]
    exact Reachable.empty.edit (.addFunc ⟨"f", .void, [], [], none, none, none, []⟩) (by decide) rfl
  | succ n ih =>
    have htype : TypeTable.initial.Has .pointer := by decide
    rw [longGraph_succ]
    exact ih.lengthen (f := ⟨0⟩) rfl htype

theorem unnamedLocals_longGraph (n : Nat) : (longGraph n).unnamedLocals ⟨0⟩ =
    (List.range n).flatMap fun i => [.block ⟨i⟩, .inst ⟨i⟩] := by
  have hblock {i : Nat} (hi : i < n) : (longGraph n).blocks.get? ⟨i⟩ =
      some ⟨.anonymous, [⟨i⟩], none, some ⟨0⟩⟩ := by
    simp [longGraph, Arena.get?, hi]
  have hinst {i : Nat} (hi : i < n) : (longGraph n).insts.get? ⟨i⟩ =
      some ⟨.phi .pointer [], .pointer, .anonymous, some ⟨i⟩⟩ := by
    simp [longGraph, Arena.get?, hi]
  have hplaces : (longGraph n).places ⟨0⟩ =
      (List.range n).flatMap fun i => [.block ⟨i⟩, .inst ⟨i⟩] := by
    change ((List.range n).map Ref.mk).flatMap (longGraph n).blockPlaces = _
    rw [List.flatMap_map]
    refine List.flatMap_congr fun i hi => ?_
    have hi := hblock (List.mem_range.mp hi)
    simp [blockPlaces, Arena.members_of_get? hi]
  rw [unnamedLocals, hplaces, List.filter_eq_self]
  intro v hv
  obtain ⟨i, hi, hv⟩ := List.mem_flatMap.mp hv
  rw [List.mem_range] at hi
  simp only [List.mem_cons, List.not_mem_nil, or_false] at hv
  rcases hv with rfl | rfl
  · simp [takesNumber, yieldsValue, identOf?, Arena.view, hblock hi, Ident.isUnnamed,
      Ident.anonymous]
  · have htype : (longGraph n).types.get? .pointer ≠ some .void := by
      change TypeTable.initial.get? .pointer ≠ some .void
      decide
    simp [takesNumber, yieldsValue, identOf?, Arena.view, hinst hi, Ident.isUnnamed,
      Ident.anonymous, htype]

theorem length_unnamedLocals_longGraph (n : Nat) :
    ((longGraph n).unnamedLocals ⟨0⟩).length = 2 * n := by
  rw [unnamedLocals_longGraph, List.length_flatMap]
  simp [Nat.mul_comm]

theorem assignIds_cleared_overflow (h : g.Reachable) (hf : g.funcs.get? f = some func)
    (hfits : g.Fits 0 (g.unnamedParams f)) (hmany : UInt32.size ≤ (g.unnamedLocals f).length) :
    (g.cleared f).assignIds f = .error .overflow := by
  refine assignIds_overflow (h.cleared hf) hf ?_ ?_
  · rw [unnamedLocals_cleared]
    exact (fits_cleared_iff h.linked).mpr hfits
  · rwa [unnamedLocals_cleared]

/-- A parameter of a type that was never handed out becomes the operand, and so the type, of an
instruction. -/
def forgedRun : List Edit :=
  [.intern (.func .void [] false), .addBlock .anonymous,
    .addFunc ⟨"f", ⟨5⟩, [], [⟨0⟩], none, none, none, []⟩, .addParam ⟨99⟩ .anonymous,
    .addParam .pointer .anonymous, .addInst (.unary .fneg (.param ⟨1⟩)) .anonymous,
    .pushInst ⟨0⟩ ⟨0⟩, .replaceUse (.inst ⟨0⟩ .x) (.param ⟨0⟩), .refreshTypes ⟨0⟩]

/-- Numbering overflows in a function with more unnamed values than numbers, and is out of range in
one that has a value of a forged type. -/
theorem longGraph_assignIds :
    ((longGraph 2147483649).Reachable ∧ (longGraph 2147483649).unnamedParams ⟨0⟩ = [] ∧
      (longGraph 2147483649).resetNames ⟨0⟩ = .ok ((longGraph 2147483649).cleared ⟨0⟩) ∧
      ((longGraph 2147483649).cleared ⟨0⟩).assignIds ⟨0⟩ = .error .overflow) ∧
    ∃ g g', Graph.empty.run forgedRun = .ok g ∧ g.unnamedParams ⟨0⟩ = [] ∧
      g.resetNames ⟨0⟩ = .ok g' ∧ g'.assignIds ⟨0⟩ = .error (.outOfRange 6 99) := by
  refine ⟨?_, _, _, rfl, rfl, rfl, rfl⟩
  have hreach := reachable_longGraph 2147483649
  have hparams : (longGraph 2147483649).unnamedParams ⟨0⟩ = [] := rfl
  refine ⟨hreach, hparams, resetNames_eq_cleared hreach.linked rfl,
    assignIds_cleared_overflow hreach rfl ?_ ?_⟩
  · rw [hparams]
    intro k v id hk
    cases hk
  · rw [length_unnamedLocals_longGraph]
    decide

end Long

end IrGraph.Graph
