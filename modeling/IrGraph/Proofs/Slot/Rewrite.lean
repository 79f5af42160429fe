import IrGraph.Proofs.Edit.Effect
import IrGraph.Proofs.Slot.Uses

/-! Rewriting one use. What is put into a use changes the graph by one map over all uses, which
moves that use only; the laws of a single cell among many carry over from values to graphs. -/

namespace IrGraph

section Cells

variable {σ : Type} [DecidableEq σ] {s t : σ} {v w : Value}

theorem replaceAt_of_ne {r : σ} {a : Value} (h : r ≠ s) : replaceAt s v r a = a :=
  if_neg h

theorem replaceAt_inj {τ : Type} [DecidableEq τ] (use : σ → τ) (huse : ∀ r s, use r = use s ↔ r = s)
    (s : σ) (v : Value) (r : σ) : replaceAt (use s) v (use r) = replaceAt s v r := by
  funext a
  simp only [replaceAt, huse]

theorem replaceAt_replaceAt_self (s r : σ) (v w a : Value) :
    replaceAt s w r (replaceAt s v r a) = replaceAt s w r a := by
  unfold replaceAt
  split <;> rfl

theorem replaceAt_comm (h : s ≠ t) (r : σ) (a : Value) :
    replaceAt t w r (replaceAt s v r a) = replaceAt s v r (replaceAt t w r a) := by
  unfold replaceAt
  by_cases hs : r = s
  · have ht : r ≠ t := hs ▸ h
    rw [if_pos hs, if_neg ht, if_pos hs]
  · rw [if_neg hs, if_neg hs]

end Cells

namespace Instruction

variable {k k' : Instruction} {s : InstSlot} {v : Value}

/-- The kind with one and the same value in all slots: what does not depend on operands. -/
def shape (k : Instruction) : Instruction :=
  k.mapOperands fun _ _ => .const ⟨0⟩

theorem shape_of_write (h : k.write s v = some k') : k'.shape = k.shape := by
  rw [← eq_of_write h, shape, mapOperands_mapOperands, shape]

theorem operands_of_write (hsizes : Addressable k.listSizes) (h : k.write s v = some k') :
    k'.operands = k.operands.map fun p => (p.1, if p.1 = s then v else p.2) := by
  rw [← eq_of_write h, operands_mapOperands hsizes]
  rfl

theorem mem_of_isSome_write (h : (k.write s v).isSome) : s ∈ k.operands.map Prod.fst := by
  obtain ⟨a, ha⟩ := Option.isSome_iff_exists.mp (isSome_read_of_write h)
  exact List.mem_map.mpr ⟨(s, a), mem_operands_of_read ha, rfl⟩

end Instruction

namespace Terminator

variable {k k' : Terminator} {s : TermSlot} {v : Value}

/-- The kind with one and the same value in all slots: what does not depend on operands. -/
def shape (k : Terminator) : Terminator :=
  k.mapOperands fun _ _ => .const ⟨0⟩

theorem shape_of_write (h : k.write s v = some k') : k'.shape = k.shape := by
  rw [← eq_of_write h, shape, mapOperands_mapOperands, shape]

theorem operands_of_write (hsizes : Addressable k.listSizes) (h : k.write s v = some k') :
    k'.operands = k.operands.map fun p => (p.1, if p.1 = s then v else p.2) := by
  rw [← eq_of_write h, operands_mapOperands hsizes]
  rfl

theorem mem_of_isSome_write (h : (k.write s v).isSome) : s ∈ k.operands.map Prod.fst := by
  obtain ⟨a, ha⟩ := Option.isSome_iff_exists.mp (isSome_read_of_write h)
  exact List.mem_map.mpr ⟨(s, a), mem_operands_of_read ha, rfl⟩

end Terminator

namespace Graph

variable {g g' : Graph} {u w : Use} {v a : Value} {i : InstRef} {inst : Inst} {t : TermRef}
  {term : Term} {f f' : Use → Value → Value}

section Owner

theorem replaceUse_inst (hi : g.insts.get? i = some inst) (s : InstSlot) (v : Value) :
    g.replaceUse (.inst i s) v =
      (inst.kind.write s v).elim (.error (.staleUse inst.kind.kindName s.text)) fun kind =>
        .ok { g with insts := g.insts.set i { inst with kind } } := by
  simp only [replaceUse, Arena.get_eq_ok_iff.mpr hi]
  cases hw : inst.kind.write s v <;>
    simp [bind, Except.bind, hw, setInstKind, Arena.modify, hi] <;> rfl

theorem replaceUse_term (ht : g.terms.get? t = some term) (s : TermSlot) (v : Value) :
    g.replaceUse (.term t s) v =
      (term.kind.write s v).elim (.error (.staleUse term.kind.kindName s.text)) fun kind =>
        .ok { g with terms := g.terms.set t { term with kind } } := by
  simp only [replaceUse, Arena.get_eq_ok_iff.mpr ht]
  cases hw : term.kind.write s v <;>
    simp [bind, Except.bind, hw, setTermKind, Arena.modify, ht] <;> rfl

end Owner

section Map

/-- Changes what every use holds by what the use says. -/
def mapUses (f : Use → Value → Value) (g : Graph) : Graph :=
  { g with
    insts := g.insts.mapRefs fun i x =>
      { x with kind := x.kind.mapOperands fun s => f (.inst i s) }
    terms := g.terms.mapRefs fun t x =>
      { x with kind := x.kind.mapOperands fun s => f (.term t s) } }

theorem readUse_inst_eq_ok_iff {s : InstSlot} : g.readUse (.inst i s) = .ok a ↔
    ∃ inst, g.insts.get? i = some inst ∧ inst.kind.read s = some a := by
  simp only [readUse, bind_eq_ok_iff, Arena.get_eq_ok_iff]
  refine exists_congr fun inst => and_congr_right fun _ => ?_
  cases inst.kind.read s <;> simp [throw_ne_ok, pure_eq_ok_iff]

theorem readUse_term_eq_ok_iff {s : TermSlot} : g.readUse (.term t s) = .ok a ↔
    ∃ term, g.terms.get? t = some term ∧ term.kind.read s = some a := by
  simp only [readUse, bind_eq_ok_iff, Arena.get_eq_ok_iff]
  refine exists_congr fun term => and_congr_right fun _ => ?_
  cases term.kind.read s <;> simp [throw_ne_ok, pure_eq_ok_iff]

theorem mapUses_mapUses : (g.mapUses f).mapUses f' = g.mapUses fun u a => f' u (f u a) := by
  simp [mapUses, Arena.mapRefs_mapRefs, Instruction.mapOperands_mapOperands,
    Terminator.mapOperands_mapOperands]

theorem insts_mapUses (g : Graph) (f : Use → Value → Value) :
    (g.mapUses f).insts = g.insts.mapRefs fun i x =>
      { x with kind := x.kind.mapOperands fun s => f (.inst i s) } :=
  rfl

theorem terms_mapUses (g : Graph) (f : Use → Value → Value) :
    (g.mapUses f).terms = g.terms.mapRefs fun t x =>
      { x with kind := x.kind.mapOperands fun s => f (.term t s) } :=
  rfl

theorem insts_mapUses_eq_self (h : ∀ i s a, g.readUse (.inst i s) = .ok a → f (.inst i s) a = a) :
    (g.mapUses f).insts = g.insts := by
  rw [insts_mapUses]
  refine Arena.mapRefs_eq_self fun i x hi => ?_
  rw [Instruction.mapOperands_eq_self fun s a hs => h i s a (readUse_inst_eq_ok_iff.mpr ⟨x, hi, hs⟩)]

theorem terms_mapUses_eq_self (h : ∀ t s a, g.readUse (.term t s) = .ok a → f (.term t s) a = a) :
    (g.mapUses f).terms = g.terms := by
  rw [terms_mapUses]
  refine Arena.mapRefs_eq_self fun t x ht => ?_
  rw [Terminator.mapOperands_eq_self fun s a hs => h t s a (readUse_term_eq_ok_iff.mpr ⟨x, ht, hs⟩)]

theorem mapUses_eq (g : Graph) (f : Use → Value → Value) :
    g.mapUses f = { g with insts := (g.mapUses f).insts, terms := (g.mapUses f).terms } :=
  rfl

theorem mapUses_eq_self (h : ∀ u a, g.readUse u = .ok a → f u a = a) : g.mapUses f = g := by
  rw [mapUses_eq, insts_mapUses_eq_self fun i s => h (.inst i s),
    terms_mapUses_eq_self fun t s => h (.term t s)]

theorem readUse_mapUses_eq_ok_iff :
    (g.mapUses f).readUse u = .ok v ↔ ∃ a, g.readUse u = .ok a ∧ f u a = v := by
  cases u with
  | inst i s =>
    simp only [readUse_inst_eq_ok_iff, insts_mapUses, Arena.get?_mapRefs, Option.map_eq_some_iff]
    constructor
    · rintro ⟨_, ⟨x, hi, rfl⟩, hread⟩
      rw [Instruction.read_mapOperands, Option.map_eq_some_iff] at hread
      obtain ⟨a, ha, hv⟩ := hread
      exact ⟨a, ⟨x, hi, ha⟩, hv⟩
    · rintro ⟨a, ⟨x, hi, ha⟩, rfl⟩
      exact ⟨_, ⟨x, hi, rfl⟩, by rw [Instruction.read_mapOperands, ha, Option.map_some]⟩
  | term t s =>
    simp only [readUse_term_eq_ok_iff, terms_mapUses, Arena.get?_mapRefs, Option.map_eq_some_iff]
    constructor
    · rintro ⟨_, ⟨x, ht, rfl⟩, hread⟩
      rw [Terminator.read_mapOperands, Option.map_eq_some_iff] at hread
      obtain ⟨a, ha, hv⟩ := hread
      exact ⟨a, ⟨x, ht, ha⟩, hv⟩
    · rintro ⟨a, ⟨x, ht, ha⟩, rfl⟩
      exact ⟨_, ⟨x, ht, rfl⟩, by rw [Terminator.read_mapOperands, ha, Option.map_some]⟩

/-- A use that is there can be replaced, and is all that moves then. -/
theorem replaceUse_of_readUse (h : g.readUse u = .ok a) (v : Value) :
    g.replaceUse u v = .ok (g.mapUses (replaceAt u v)) := by
  cases u with
  | inst i s =>
    obtain ⟨x, hi, hs⟩ := readUse_inst_eq_ok_iff.mp h
    obtain ⟨kind, hkind⟩ := Option.isSome_iff_exists.mp
      (Instruction.isSome_write_of_read (v := v) (Option.isSome_of_eq_some hs))
    have hinsts : (g.mapUses (replaceAt (.inst i s) v)).insts = g.insts.set i { x with kind } := by
      rw [insts_mapUses]
      refine Arena.mapRefs_eq_set hi ?_ fun j y hj => ?_
      · rw [← Instruction.eq_of_write hkind]
        simp only [replaceAt_inj (Use.inst i) (by simp)]
      · rw [Instruction.mapOperands_eq_self fun t a _ => replaceAt_of_ne (by simp [hj])]
    have hterms : (g.mapUses (replaceAt (.inst i s) v)).terms = g.terms :=
      terms_mapUses_eq_self fun _ _ _ _ => replaceAt_of_ne (by simp)
    rw [replaceUse_inst hi, hkind, Option.elim_some, mapUses_eq, hinsts, hterms]
  | term t s =>
    obtain ⟨x, ht, hs⟩ := readUse_term_eq_ok_iff.mp h
    obtain ⟨kind, hkind⟩ := Option.isSome_iff_exists.mp
      (Terminator.isSome_write_of_read (v := v) (Option.isSome_of_eq_some hs))
    have hterms : (g.mapUses (replaceAt (.term t s) v)).terms = g.terms.set t { x with kind } := by
      rw [terms_mapUses]
      refine Arena.mapRefs_eq_set ht ?_ fun j y hj => ?_
      · rw [← Terminator.eq_of_write hkind]
        simp only [replaceAt_inj (Use.term t) (by simp)]
      · rw [Terminator.mapOperands_eq_self fun t a _ => replaceAt_of_ne (by simp [hj])]
    have hinsts : (g.mapUses (replaceAt (.term t s) v)).insts = g.insts :=
      insts_mapUses_eq_self fun _ _ _ _ => replaceAt_of_ne (by simp)
    rw [replaceUse_term ht, hkind, Option.elim_some, mapUses_eq, hinsts, hterms]

theorem exists_readUse_of_replaceUse (h : g.replaceUse u v = .ok g') :
    ∃ a, g.readUse u = .ok a := by
  cases u with
  | inst i s =>
    obtain ⟨x, kind, hi, hw, -⟩ := replaceUse_inst_eq_ok h
    obtain ⟨a, ha⟩ := Option.isSome_iff_exists.mp
      (Instruction.isSome_read_of_write (Option.isSome_of_eq_some hw))
    exact ⟨a, readUse_inst_eq_ok_iff.mpr ⟨x, hi, ha⟩⟩
  | term t s =>
    obtain ⟨x, kind, ht, hw, -⟩ := replaceUse_term_eq_ok h
    obtain ⟨a, ha⟩ := Option.isSome_iff_exists.mp
      (Terminator.isSome_read_of_write (Option.isSome_of_eq_some hw))
    exact ⟨a, readUse_term_eq_ok_iff.mpr ⟨x, ht, ha⟩⟩

end Map

section Laws

/-- What is there to be replaced: just what can be read. -/
theorem replaceUse_eq_ok_iff :
    g.replaceUse u v = .ok g' ↔ (∃ a, g.readUse u = .ok a) ∧ g' = g.mapUses (replaceAt u v) := by
  constructor
  · intro h
    obtain ⟨a, ha⟩ := exists_readUse_of_replaceUse h
    rw [replaceUse_of_readUse ha] at h
    exact ⟨⟨a, ha⟩, (Except.ok.inj h).symm⟩
  · rintro ⟨⟨a, ha⟩, rfl⟩
    exact replaceUse_of_readUse ha v

theorem replaceUse_self (h : g.readUse u = .ok v) : g.replaceUse u v = .ok g := by
  have hsame : g.mapUses (replaceAt u v) = g := by
    refine mapUses_eq_self fun w a ha => ?_
    by_cases hw : w = u
    · subst hw
      obtain rfl : v = a := Except.ok.inj (h.symm.trans ha)
      exact if_pos rfl
    · exact replaceAt_of_ne hw
  rw [replaceUse_of_readUse h, hsame]

theorem replaceUse_replaceUse (h : g.replaceUse u v = .ok g') (a : Value) :
    g'.replaceUse u a = g.replaceUse u a := by
  obtain ⟨⟨b, hb⟩, rfl⟩ := replaceUse_eq_ok_iff.mp h
  have hb' := readUse_mapUses_eq_ok_iff (f := replaceAt u v).mpr ⟨b, hb, rfl⟩
  rw [replaceUse_of_readUse hb', replaceUse_of_readUse hb, mapUses_mapUses]
  simp only [replaceAt_replaceAt_self]

theorem replaceUse_comm {g₁ : Graph} (huw : u ≠ w) (h₁ : g.replaceUse u v = .ok g₁)
    (h : g₁.replaceUse w a = .ok g') :
    ∃ g₂, g.replaceUse w a = .ok g₂ ∧ g₂.replaceUse u v = .ok g' := by
  obtain ⟨⟨b, hb⟩, rfl⟩ := replaceUse_eq_ok_iff.mp h₁
  obtain ⟨⟨c, hc⟩, rfl⟩ := replaceUse_eq_ok_iff.mp h
  obtain ⟨d, hd, -⟩ := readUse_mapUses_eq_ok_iff.mp hc
  have hb' := readUse_mapUses_eq_ok_iff (f := replaceAt w a).mpr ⟨b, hb, rfl⟩
  refine ⟨_, replaceUse_of_readUse hd a, ?_⟩
  rw [replaceUse_of_readUse hb', mapUses_mapUses, mapUses_mapUses]
  simp only [replaceAt_comm huw]

end Laws

section Main

theorem replaceUse_inst_of_not_mem {s : InstSlot} (hi : g.insts.get i = .ok inst)
    (hs : s ∉ inst.kind.operands.map Prod.fst) (v : Value) :
    g.replaceUse (.inst i s) v = .error (.staleUse inst.kind.kindName s.text) := by
  have hnone : inst.kind.write s v = none := by
    rw [← Option.not_isSome_iff_eq_none]
    exact fun hsome => hs (Instruction.mem_of_isSome_write hsome)
  rw [replaceUse_inst (Arena.get_eq_ok_iff.mp hi), hnone]
  rfl

theorem replaceUse_term_of_not_mem {s : TermSlot} (ht : g.terms.get t = .ok term)
    (hs : s ∉ term.kind.operands.map Prod.fst) (v : Value) :
    g.replaceUse (.term t s) v = .error (.staleUse term.kind.kindName s.text) := by
  have hnone : term.kind.write s v = none := by
    rw [← Option.not_isSome_iff_eq_none]
    exact fun hsome => hs (Terminator.mem_of_isSome_write hsome)
  rw [replaceUse_term (Arena.get_eq_ok_iff.mp ht), hnone]
  rfl

theorem replaceUse_inst_of_mem {s : InstSlot} (hi : g.insts.get i = .ok inst)
    (hsizes : Addressable inst.kind.listSizes) (hs : s ∈ inst.kind.operands.map Prod.fst)
    (v : Value) :
    ∃ kind, g.replaceUse (.inst i s) v =
        .ok { g with insts := g.insts.set i { inst with kind } } ∧
      kind.shape = inst.kind.shape ∧
      kind.operands = inst.kind.operands.map fun p => (p.1, if p.1 = s then v else p.2) := by
  obtain ⟨kind, hkind⟩ := Option.isSome_iff_exists.mp
    (((Instruction.slotsAgree hsizes).isSome_write s v).mpr hs)
  refine ⟨kind, ?_, Instruction.shape_of_write hkind, Instruction.operands_of_write hsizes hkind⟩
  rw [replaceUse_inst (Arena.get_eq_ok_iff.mp hi), hkind, Option.elim_some]

theorem replaceUse_term_of_mem {s : TermSlot} (ht : g.terms.get t = .ok term)
    (hsizes : Addressable term.kind.listSizes) (hs : s ∈ term.kind.operands.map Prod.fst)
    (v : Value) :
    ∃ kind, g.replaceUse (.term t s) v =
        .ok { g with terms := g.terms.set t { term with kind } } ∧
      kind.shape = term.kind.shape ∧
      kind.operands = term.kind.operands.map fun p => (p.1, if p.1 = s then v else p.2) := by
  obtain ⟨kind, hkind⟩ := Option.isSome_iff_exists.mp
    (((Terminator.slotsAgree hsizes).isSome_write s v).mpr hs)
  refine ⟨kind, ?_, Terminator.shape_of_write hkind, Terminator.operands_of_write hsizes hkind⟩
  rw [replaceUse_term (Arena.get_eq_ok_iff.mp ht), hkind, Option.elim_some]

/-- A slot that the owner does not list is stale. One that it lists, when its lists of operands have
at most 2³² members, is replaced in place: the owner gets a kind of the same shape that lists the
new value there and otherwise what it listed, and nothing else of the graph changes. Putting back
what is there does nothing, of two values for one use the last one stays, and two replacements of
different uses can change places. -/
theorem replaceUse_moves_one_slot (g : Graph) :
    (∀ i inst s v, g.insts.get i = .ok inst → s ∉ inst.kind.operands.map Prod.fst →
      ∃ e, g.replaceUse (.inst i s) v = .error e ∧ e.message =
        "stale use: `" ++ inst.kind.kindName ++ "` has no operand slot " ++ s.text) ∧
    (∀ t term s v, g.terms.get t = .ok term → s ∉ term.kind.operands.map Prod.fst →
      ∃ e, g.replaceUse (.term t s) v = .error e ∧ e.message =
        "stale use: `" ++ term.kind.kindName ++ "` has no operand slot " ++ s.text) ∧
    (∀ i inst s v, g.insts.get i = .ok inst → Addressable inst.kind.listSizes →
      s ∈ inst.kind.operands.map Prod.fst →
      ∃ kind, g.replaceUse (.inst i s) v =
          .ok { g with insts := g.insts.set i { inst with kind } } ∧
        kind.shape = inst.kind.shape ∧
        kind.operands = inst.kind.operands.map fun p => (p.1, if p.1 = s then v else p.2)) ∧
    (∀ t term s v, g.terms.get t = .ok term → Addressable term.kind.listSizes →
      s ∈ term.kind.operands.map Prod.fst →
      ∃ kind, g.replaceUse (.term t s) v =
          .ok { g with terms := g.terms.set t { term with kind } } ∧
        kind.shape = term.kind.shape ∧
        kind.operands = term.kind.operands.map fun p => (p.1, if p.1 = s then v else p.2)) ∧
    (∀ u v, g.readUse u = .ok v → g.replaceUse u v = .ok g) ∧
    (∀ u v g', g.replaceUse u v = .ok g' → ∀ w, g'.replaceUse u w = g.replaceUse u w) ∧
    ∀ u w v a g₁ g', u ≠ w → g.replaceUse u v = .ok g₁ → g₁.replaceUse w a = .ok g' →
      ∃ g₂, g.replaceUse w a = .ok g₂ ∧ g₂.replaceUse u v = .ok g' := by
  refine ⟨?_, ?_, ?_, ?_, ?_, ?_, ?_⟩
  · exact fun i inst s v hi hs => ⟨_, replaceUse_inst_of_not_mem hi hs v, rfl⟩
  · exact fun t term s v ht hs => ⟨_, replaceUse_term_of_not_mem ht hs v, rfl⟩
  · exact fun i inst s v hi hsizes hs => replaceUse_inst_of_mem hi hsizes hs v
  · exact fun t term s v ht hsizes hs => replaceUse_term_of_mem ht hsizes hs v
  · exact fun u v h => replaceUse_self h
  · exact fun u v g' h w => replaceUse_replaceUse h w
  · exact fun u w v a g₁ g' huw h₁ h => replaceUse_comm huw h₁ h

theorem bundleGraph_replaceUse :
    (∃ e, bundleGraph.replaceUse (.inst ⟨0⟩ (.arg 2)) (.const ⟨2⟩) = .error e ∧
      e.message = "stale use: `call` has no operand slot Arg(2)") ∧
    (∃ e, bundleGraph.replaceUse (.term ⟨0⟩ .unwindTarget) (.block ⟨1⟩) = .error e ∧
      e.message = "stale use: `catchswitch` has no operand slot UnwindTarget") ∧
    (∃ g' kind, bundleGraph.replaceUse (.inst ⟨0⟩ (.bundleInput 0 0)) (.const ⟨2⟩) = .ok g' ∧
      g'.insts.get ⟨0⟩ = .ok ⟨kind, .void, ⟨none, none⟩, none⟩ ∧ kind.operands =
        [(.callee, .func ⟨0⟩), (.arg 0, .const ⟨0⟩), (.arg 1, .param ⟨0⟩),
          (.bundleInput 0 0, .const ⟨2⟩)]) ∧
    (∃ g' kind, bundleGraph.replaceUse (.term ⟨0⟩ (.handler 0)) (.block ⟨1⟩) = .ok g' ∧
      g'.terms.get ⟨0⟩ = .ok ⟨kind, .void, ⟨none, none⟩, none⟩ ∧
      kind.operands = [(.scope, .inst ⟨0⟩), (.handler 0, .block ⟨1⟩)]) ∧
    bundleGraph.replaceUse (.inst ⟨0⟩ (.arg 1)) (.param ⟨0⟩) = .ok bundleGraph ∧
    ∃ g₁ g₂ g', bundleGraph.replaceUse (.inst ⟨0⟩ (.arg 0)) (.const ⟨2⟩) = .ok g₁ ∧
      g₁.replaceUse (.inst ⟨0⟩ (.arg 0)) (.const ⟨0⟩) = .ok bundleGraph ∧
      g₁.replaceUse (.inst ⟨0⟩ (.arg 1)) (.const ⟨2⟩) = .ok g' ∧
      bundleGraph.replaceUse (.inst ⟨0⟩ (.arg 1)) (.const ⟨2⟩) = .ok g₂ ∧
      g₂.replaceUse (.inst ⟨0⟩ (.arg 0)) (.const ⟨2⟩) = .ok g' := by
  obtain ⟨hstale, htstale, hinst, hterm, hself, htwice, hcomm⟩ :=
    replaceUse_moves_one_slot bundleGraph
  refine ⟨?_, ?_, ?_, ?_, hself (.inst ⟨0⟩ (.arg 1)) (.param ⟨0⟩) rfl, ?_⟩
  · obtain ⟨e, he, hmessage⟩ := hstale ⟨0⟩ _ (.arg 2) (.const ⟨2⟩) rfl (by decide)
    exact ⟨e, he, hmessage.trans (by decide)⟩
  · obtain ⟨e, he, hmessage⟩ := htstale ⟨0⟩ _ .unwindTarget (.block ⟨1⟩) rfl (by decide)
    exact ⟨e, he, hmessage.trans (by decide)⟩
  · obtain ⟨kind, hreplace, -, hkind⟩ :=
      hinst ⟨0⟩ _ (.bundleInput 0 0) (.const ⟨2⟩) rfl (by decide) (by decide)
    exact ⟨_, kind, hreplace, rfl, hkind.trans (by decide)⟩
  · obtain ⟨kind, hreplace, -, hkind⟩ :=
      hterm ⟨0⟩ _ (.handler 0) (.block ⟨1⟩) rfl (by decide) (by decide)
    exact ⟨_, kind, hreplace, rfl, hkind.trans (by decide)⟩
  · obtain ⟨g₁, g', h₁, h⟩ : ∃ g₁ g',
        bundleGraph.replaceUse (.inst ⟨0⟩ (.arg 0)) (.const ⟨2⟩) = .ok g₁ ∧
          g₁.replaceUse (.inst ⟨0⟩ (.arg 1)) (.const ⟨2⟩) = .ok g' := ⟨_, _, rfl, rfl⟩
    obtain ⟨g₂, h₂, h'⟩ := hcomm _ _ _ _ g₁ g' (by decide) h₁ h
    have hback := (htwice _ _ g₁ h₁ (.const ⟨0⟩)).trans (hself _ _ rfl)
    exact ⟨g₁, g₂, g', h₁, hback, h, h₂, h'⟩

/-- A pad with more arguments than there are positions, all of them the same. -/
def crowdedPad : Instruction :=
  .catchpad (.const ⟨0⟩) (List.replicate (UInt32.size + 1) (.const ⟨0⟩))

def crowdedGraph : Graph :=
  { empty with insts := ⟨#[⟨crowdedPad, .token, .anonymous, none⟩]⟩ }

theorem operands_catchpad_set_ne {n : Nat} {scope a b : Value} (hn : UInt32.size < n)
    (hab : a ≠ b) : (Instruction.catchpad scope ((List.replicate n a).set 0 b)).operands ≠
      (Instruction.catchpad scope (List.replicate n a)).operands.map
        fun p => (p.1, if p.1 = .arg 0 then b else p.2) := by
  intro heq
  have hslot : UInt32.size.toUInt32 = 0 := by decide
  have hne : (0 : Nat) ≠ UInt32.size := by decide
  have hlast := congrArg (fun l => l[UInt32.size + 1]?) heq
  simp only [Instruction.operands, List.getElem?_cons_succ, List.map_cons, List.getElem?_map,
    List.getElem?_mapIdx, List.getElem?_set_ne hne, List.getElem?_replicate, hn, if_true,
    Option.map_some, hslot, Option.some.injEq, Prod.mk.injEq, true_and] at hlast
  exact hab hlast

/-- Behind the first 2³² arguments the slots begin again: the slot of the first argument is listed
for the last one too, and only the first one is replaced. An owner that the graph does not have is
out of range. -/
theorem crowdedGraph_replaceUse :
    Graph.empty.run [.addInst crowdedPad .anonymous] = .ok crowdedGraph ∧
    (InstSlot.arg 0 ∈ crowdedPad.operands.map Prod.fst ∧
      ∃ kind, crowdedGraph.replaceUse (.inst ⟨0⟩ (.arg 0)) (.const ⟨1⟩) =
          .ok { empty with insts := ⟨#[⟨kind, .token, .anonymous, none⟩]⟩ } ∧
        kind.operands ≠
          crowdedPad.operands.map fun p => (p.1, if p.1 = .arg 0 then .const ⟨1⟩ else p.2)) ∧
    ∃ e, Graph.empty.replaceUse (.inst ⟨0⟩ .x) (.const ⟨0⟩) = .error e ∧
      e.message = "index out of bounds: the len is 0 but the index is 0" := by
  have hread : crowdedPad.read (.arg 0) = some (.const ⟨0⟩) := by
    rw [crowdedPad, Instruction.read, List.getElem?_replicate, if_pos (by decide)]
  obtain ⟨kind, hkind⟩ : ∃ kind, crowdedPad.write (.arg 0) (.const ⟨1⟩) = some kind :=
    Option.isSome_iff_exists.mp
      (Instruction.isSome_write_of_read (Option.isSome_of_eq_some hread))
  have hinst : crowdedGraph.insts.get? ⟨0⟩ = some ⟨crowdedPad, .token, .anonymous, none⟩ := rfl
  refine ⟨rfl, ⟨?_, kind, ?_, ?_⟩, _, rfl, by decide⟩
  · exact List.mem_map.mpr ⟨_, Instruction.mem_operands_of_read hread, rfl⟩
  · rw [replaceUse_inst hinst, hkind]
    rfl
  · rw [crowdedPad, Instruction.write] at hkind
    obtain ⟨args, hargs, rfl⟩ := Option.map_eq_some_iff.mp hkind
    obtain ⟨-, rfl⟩ := writeAt_eq_some_iff.mp hargs
    exact operands_catchpad_set_ne (Nat.lt_add_one UInt32.size) (by decide)

end Main

end Graph

end IrGraph
