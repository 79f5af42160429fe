import IrGraph.Proofs.Link.Linked

/-! Attaching and detaching undo each other. Both set the list of one block and the owner of one
instruction; as lists and owners are in step, the second of the two puts back what the first has
found. -/

namespace IrGraph.Graph

section List

variable {i next : InstRef} {before after l : List InstRef}

theorem insertBefore?_append (h : next ∉ before) :
    insertBefore? next i (before ++ next :: after) = some (before ++ i :: next :: after) := by
  induction before with
  | nil => exact if_pos rfl
  | cons j before ih =>
    obtain ⟨hj, hbefore⟩ := List.ne_and_not_mem_of_not_mem_cons h
    rw [List.cons_append, insertBefore?, if_neg (Ne.symm hj), ih hbefore]
    rfl

theorem filter_ne_eq_self (h : i ∉ l) : l.filter (· ≠ i) = l := by
  refine List.filter_eq_self.mpr fun j hj => decide_eq_true ?_
  rintro rfl
  exact h hj

theorem filter_ne_append_cons (hbefore : i ∉ before) (hafter : i ∉ after) :
    (before ++ i :: after).filter (· ≠ i) = before ++ after := by
  rw [List.filter_append, List.filter_cons_of_neg (by simp), filter_ne_eq_self hbefore,
    filter_ne_eq_self hafter]

end List

/-- The graph in which a block lists other instructions and an instruction has another owner. -/
def relocate (g : Graph) (b : BlockRef) (insts : List InstRef) (i : InstRef)
    (owner : Option BlockRef) : Graph :=
  { g with
    blocks := g.blocks.mapRefs (onlyAt b fun x => { x with insts })
    insts := g.insts.mapRefs (onlyAt i fun x => { x with owner }) }

variable {g : Graph} {b : BlockRef} {i next : InstRef} {x : Block} {y : Inst}
  {insts insts' before after : List InstRef} {owner owner' : Option BlockRef}

section Relocate

theorem get?_blocks_relocate (hb : g.blocks.get? b = some x) :
    (g.relocate b insts i owner).blocks.get? b = some { x with insts } := by
  rw [relocate, Arena.get?_mapRefs, hb]
  exact congrArg some (if_pos rfl)

theorem get?_insts_relocate (hi : g.insts.get? i = some y) :
    (g.relocate b insts i owner).insts.get? i = some { y with owner } := by
  rw [relocate, Arena.get?_mapRefs, hi]
  exact congrArg some (if_pos rfl)

theorem relocate_relocate :
    (g.relocate b insts i owner).relocate b insts' i owner' = g.relocate b insts' i owner' := by
  simp only [relocate, Arena.mapRefs_mapRefs]
  congr 1
  · refine Arena.mapRefs_congr fun r z _ => ?_
    by_cases hr : r = b <;> simp [onlyAt, hr]
  · refine Arena.mapRefs_congr fun r z _ => ?_
    by_cases hr : r = i <;> simp [onlyAt, hr]

theorem relocate_self (hb : g.blocks.get? b = some x) (hi : g.insts.get? i = some y) :
    g.relocate b x.insts i y.owner = g := by
  have hblocks : g.blocks.mapRefs (onlyAt b fun z => { z with insts := x.insts }) = g.blocks := by
    rw [← Arena.set_eq_mapRefs g.blocks _ hb rfl, Arena.set_eq_self hb]
  have hinsts : g.insts.mapRefs (onlyAt i fun z => { z with owner := y.owner }) = g.insts := by
    rw [← Arena.set_eq_mapRefs g.insts _ hi rfl, Arena.set_eq_self hi]
  rw [relocate, hblocks, hinsts]

end Relocate

section Steps

theorem relocate_eq_set (hb : g.blocks.get? b = some x) (hi : g.insts.get? i = some y) :
    g.relocate b insts i owner =
      { g with
        blocks := g.blocks.set b { x with insts }
        insts := g.insts.set i { y with owner } } := by
  rw [relocate, ← Arena.set_eq_mapRefs g.blocks _ hb rfl, ← Arena.set_eq_mapRefs g.insts _ hi rfl]

theorem pushInst_eq_relocate (hb : g.blocks.get? b = some x) (hi : g.insts.get? i = some y)
    (hfree : y.owner = none) :
    g.pushInst b i = .ok (g.relocate b (x.insts ++ [i]) i (some b)) := by
  simp only [pushInst, bind_eq_ok_iff, freeInst_eq_ok_iff, pure_eq_ok_iff]
  exact ⟨y, ⟨hi, hfree⟩, _, Arena.modify_of_get? hb _, (relocate_eq_set hb hi).symm⟩

theorem insertInstBefore_eq_relocate (hb : g.blocks.get? b = some x)
    (hi : g.insts.get? i = some y) (hfree : y.owner = none)
    (hx : x.insts = before ++ next :: after) (hnext : next ∉ before) :
    g.insertInstBefore b next i =
      .ok (g.relocate b (before ++ i :: next :: after) i (some b)) := by
  simp only [insertInstBefore, bind_eq_ok_iff, freeInst_eq_ok_iff, Arena.get_eq_ok_iff]
  refine ⟨y, ⟨hi, hfree⟩, x, hb, ?_⟩
  rw [hx, insertBefore?_append hnext, relocate_eq_set hb hi]
  rfl

theorem removeInst_eq_relocate (hb : g.blocks.get? b = some x) (hi : g.insts.get? i = some y) :
    g.removeInst b i =
      .ok (g.relocate b (x.insts.filter (· ≠ i)) i
        (if y.owner = some b then none else y.owner)) := by
  simp only [removeInst, bind_eq_ok_iff, Arena.get_eq_ok_iff]
  refine ⟨_, Arena.modify_of_get? hb _, y, hi, ?_⟩
  rw [relocate_eq_set hb hi]
  by_cases howner : y.owner = some b
  · simp only [if_pos howner]
    rfl
  · simp only [if_neg howner, Arena.set_eq_self hi]
    rfl

theorem pushInst_relocate (hb : g.blocks.get? b = some x) (hi : g.insts.get? i = some y)
    (howner : y.owner = some b) (hx : x.insts = before ++ [i]) :
    (g.relocate b before i none).pushInst b i = .ok g := by
  rw [pushInst_eq_relocate (get?_blocks_relocate hb) (get?_insts_relocate hi) rfl,
    relocate_relocate, ← hx, ← howner, relocate_self hb hi]

end Steps

namespace Linked

theorem mem_insts_iff (h : g.Linked) (hb : g.blocks.get? b = some x)
    (hi : g.insts.get? i = some y) : i ∈ x.insts ↔ y.owner = some b := by
  have hmem := h.insts.mem_iff b i
  rwa [Arena.members_of_get? hb, Arena.link_of_get? hi] at hmem

/-- An instruction stands once in its block. -/
theorem not_mem_around (h : g.Linked) (hb : g.blocks.get? b = some x)
    (hx : x.insts = before ++ i :: after) : i ∉ before ∧ i ∉ after := by
  have hnodup := h.insts.nodup b
  rw [Arena.members_of_get? hb, hx, List.nodup_middle, List.nodup_cons, List.mem_append,
    not_or] at hnodup
  exact hnodup.1

theorem exists_block_of_owner (h : g.Linked) (hi : g.insts.get? i = some y)
    (howner : y.owner = some b) : ∃ x, g.blocks.get? b = some x ∧ i ∈ x.insts := by
  refine Arena.exists_of_mem_members ((h.insts.mem_iff b i).mpr ?_)
  rw [Arena.link_of_get? hi, howner]

/-- Wherever a free instruction has gone in, taking it out leaves the graph as it was. -/
theorem removeInst_relocate (h : g.Linked) (hb : g.blocks.get? b = some x)
    (hi : g.insts.get? i = some y) (hfree : y.owner = none) (hx : x.insts = before ++ after) :
    (g.relocate b (before ++ i :: after) i (some b)).removeInst b i = .ok g := by
  have hnot : i ∉ before ++ after := by
    rw [← hx, h.mem_insts_iff hb hi, hfree]
    exact Option.some_ne_none b ∘ Eq.symm
  obtain ⟨hbefore, hafter⟩ := not_or.mp (mt List.mem_append.mpr hnot)
  rw [removeInst_eq_relocate (get?_blocks_relocate hb) (get?_insts_relocate hi), relocate_relocate,
    if_pos rfl, filter_ne_append_cons hbefore hafter, ← hx, ← hfree, relocate_self hb hi]

theorem removeInst_of_owner (h : g.Linked) (hb : g.blocks.get? b = some x)
    (hi : g.insts.get? i = some y) (howner : y.owner = some b)
    (hx : x.insts = before ++ i :: after) :
    g.removeInst b i = .ok (g.relocate b (before ++ after) i none) := by
  obtain ⟨hbefore, hafter⟩ := h.not_mem_around hb hx
  rw [removeInst_eq_relocate hb hi, hx, filter_ne_append_cons hbefore hafter, if_pos howner]

theorem insertInstBefore_relocate (h : g.Linked) (hb : g.blocks.get? b = some x)
    (hi : g.insts.get? i = some y) (howner : y.owner = some b)
    (hx : x.insts = before ++ i :: next :: after) :
    (g.relocate b (before ++ next :: after) i none).insertInstBefore b next i = .ok g := by
  have hx' : x.insts = (before ++ [i]) ++ next :: after := by
    rw [hx, List.append_assoc, List.singleton_append]
  -- the search for the former successor stops at the place between the two parts
  have hnext : next ∉ before := fun hmem =>
    (h.not_mem_around hb hx').1 (List.mem_append_left [i] hmem)
  rw [insertInstBefore_eq_relocate (get?_blocks_relocate hb) (get?_insts_relocate hi) rfl rfl hnext,
    relocate_relocate, ← hx, ← howner, relocate_self hb hi]

theorem removeInst_of_not_mem (h : g.Linked) (hb : g.blocks.get? b = some x)
    (hi : g.insts.get? i = some y) (hnot : i ∉ x.insts) : g.removeInst b i = .ok g := by
  have howner : y.owner ≠ some b := mt (h.mem_insts_iff hb hi).mpr hnot
  rw [removeInst_eq_relocate hb hi, filter_ne_eq_self hnot, if_neg howner, relocate_self hb hi]

end Linked

/-- After any run, a free instruction goes to the end of a block or right before one of its
instructions, and taking it out again gives the same graph; an instruction that has been taken out
and put back where it was gives the same graph; and taking an instruction out of a block in which it
does not stand changes nothing. -/
theorem attach_and_detach_undo {edits : List Edit} (h : empty.run edits = .ok g) :
    (∀ b i x y, g.blocks.get? b = some x → g.insts.get? i = some y → y.owner = none →
      (g.pushInst b i = .ok (g.relocate b (x.insts ++ [i]) i (some b)) ∧
        (g.relocate b (x.insts ++ [i]) i (some b)).removeInst b i = .ok g) ∧
      ∀ before next after, x.insts = before ++ next :: after →
        g.insertInstBefore b next i =
          .ok (g.relocate b (before ++ i :: next :: after) i (some b)) ∧
        (g.relocate b (before ++ i :: next :: after) i (some b)).removeInst b i = .ok g) ∧
    (∀ b i y, g.insts.get? i = some y → y.owner = some b →
      ∃ x, g.blocks.get? b = some x ∧ i ∈ x.insts ∧
        ∀ before after, x.insts = before ++ i :: after →
          g.removeInst b i = .ok (g.relocate b (before ++ after) i none) ∧
          (after = [] → (g.relocate b (before ++ after) i none).pushInst b i = .ok g) ∧
          ∀ next rest, after = next :: rest →
            (g.relocate b (before ++ after) i none).insertInstBefore b next i = .ok g) ∧
    ∀ b i x y, g.blocks.get? b = some x → g.insts.get? i = some y → i ∉ x.insts →
      g.removeInst b i = .ok g := by
  have hlinked : g.Linked := Linked.empty.run h
  refine ⟨fun b i x y hb hi hfree => ⟨⟨?_, ?_⟩, fun before next after hx => ⟨?_, ?_⟩⟩,
    fun b i y hi howner => ?_, fun b i x y => hlinked.removeInst_of_not_mem⟩
  · exact pushInst_eq_relocate hb hi hfree
  · exact hlinked.removeInst_relocate hb hi hfree (List.append_nil x.insts).symm
  · exact insertInstBefore_eq_relocate hb hi hfree hx (hlinked.not_mem_around hb hx).1
  · exact hlinked.removeInst_relocate hb hi hfree hx
  · obtain ⟨x, hb, hmem⟩ := hlinked.exists_block_of_owner hi howner
    refine ⟨x, hb, hmem, fun before after hx => ?_⟩
    refine ⟨hlinked.removeInst_of_owner hb hi howner hx, ?_, ?_⟩
    · rintro rfl
      rw [List.append_nil]
      exact pushInst_relocate hb hi howner hx
    · rintro next rest rfl
      exact hlinked.insertInstBefore_relocate hb hi howner hx

/-- The block lists the third instruction and the second one; the first one is free. -/
theorem sampleGraph_attach_and_detach_undo :
    empty.run sampleRun = .ok sampleGraph ∧
      (∃ g, sampleGraph.insertInstBefore ⟨0⟩ ⟨1⟩ ⟨0⟩ = .ok g ∧
        g.blocks.members Block.insts ⟨0⟩ = [⟨2⟩, ⟨0⟩, ⟨1⟩] ∧
        g.removeInst ⟨0⟩ ⟨0⟩ = .ok sampleGraph) ∧
      (∃ g, sampleGraph.removeInst ⟨0⟩ ⟨2⟩ = .ok g ∧ g.blocks.members Block.insts ⟨0⟩ = [⟨1⟩] ∧
        g.insertInstBefore ⟨0⟩ ⟨1⟩ ⟨2⟩ = .ok sampleGraph) ∧
      sampleGraph.removeInst ⟨1⟩ ⟨2⟩ = .ok sampleGraph := by
  have hrun : empty.run sampleRun = .ok sampleGraph := rfl
  obtain ⟨hfree, hattached, hother⟩ := attach_and_detach_undo hrun
  refine ⟨hrun, ?_, ?_, hother ⟨1⟩ ⟨2⟩ _ _ rfl rfl List.not_mem_nil⟩
  · obtain ⟨hput, hback⟩ := (hfree ⟨0⟩ ⟨0⟩ _ _ rfl rfl rfl).2 [⟨2⟩] ⟨1⟩ [] rfl
    exact ⟨_, hput, rfl, hback⟩
  · obtain ⟨x, hb, -, hmove⟩ := hattached ⟨0⟩ ⟨2⟩ _ rfl rfl
    obtain ⟨htake, -, hback⟩ := hmove [] [⟨1⟩] (by cases hb; rfl)
    exact ⟨_, htake, rfl, hback _ _ rfl⟩

end IrGraph.Graph
