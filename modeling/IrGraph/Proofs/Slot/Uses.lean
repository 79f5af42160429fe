import IrGraph.Graph.Walk
import IrGraph.Proofs.Slot.Instruction
import IrGraph.Proofs.Slot.Terminator
import IrGraph.Proofs.Steps

/-! Uses in a graph. What an owner lists as its uses can be read and replaced, nothing else can,
and a walk goes on to what is read. -/

namespace IrGraph.Graph

/-- What the uses of an owner are good for. -/
structure UsesAgree (g : Graph) (owner : Value) (uses : List Use) : Prop where
  nodup : uses.Nodup
  user : ∀ u ∈ uses, u.user = owner
  replaced : ∀ u ∈ uses, ∀ v, ∃ g', g.replaceUse u v = .ok g'
  stale : ∀ u, u.user = owner → u ∉ uses → ∃ kind slot,
    g.readUse u = .error (.staleUse kind slot) ∧
      ∀ v, g.replaceUse u v = .error (.staleUse kind slot)
  walked : ∃ values, uses.mapM g.readUse = .ok values ∧
    g.children owner.node = .ok (values.map Value.node)

theorem UsesAgree.of_slots {σ κ : Type} {g : Graph} {owner : Value} {k : κ}
    {operands : List (σ × Value)} {read : σ → Option Value} {write : σ → Value → Option κ}
    (h : SlotsAgree operands read write k) (use : σ → Use) (kind : String) (text : σ → String)
    (put : κ → Graph) (huse : ∀ s t, use s = use t → s = t)
    (huser : ∀ u, u.user = owner ↔ ∃ s, use s = u)
    (hread : ∀ s, g.readUse (use s) = (read s).elim (.error (.staleUse kind (text s))) .ok)
    (hreplace : ∀ s v, g.replaceUse (use s) v =
      (write s v).elim (.error (.staleUse kind (text s))) fun k => .ok (put k))
    (hchildren : g.children owner.node = .ok (operands.map (·.2.node))) :
    g.UsesAgree owner (operands.map fun p => use p.1) := by
  refine ⟨?nodup, ?user, ?replaced, ?stale, ?walked⟩
  case nodup =>
    have hnd := List.Nodup.map (fun s t => huse s t) h.nodup
    rwa [List.map_map] at hnd
  case user =>
    intro u hu
    obtain ⟨p, -, rfl⟩ := List.mem_map.mp hu
    exact (huser _).mpr ⟨p.1, rfl⟩
  case replaced =>
    intro u hu v
    obtain ⟨p, hp, rfl⟩ := List.mem_map.mp hu
    have hs : (write p.1 v).isSome := (h.isSome_write p.1 v).mpr (List.mem_map.mpr ⟨p, hp, rfl⟩)
    obtain ⟨k', hk'⟩ := Option.isSome_iff_exists.mp hs
    exact ⟨put k', by rw [hreplace, hk']; rfl⟩
  case stale =>
    intro u hu hout
    obtain ⟨s, rfl⟩ := (huser u).mp hu
    have hs : s ∉ operands.map Prod.fst := by
      intro hs
      obtain ⟨p, hp, rfl⟩ := List.mem_map.mp hs
      exact hout (List.mem_map.mpr ⟨p, hp, rfl⟩)
    refine ⟨kind, text s, ?_, fun v => ?_⟩
    · have hnone : read s = none := by
        rw [Option.eq_none_iff_forall_ne_some]
        exact fun v hv => hs (List.mem_map.mpr ⟨(s, v), (h.mem_iff_read s v).mpr hv, rfl⟩)
      rw [hread, hnone]
      rfl
    · have hnone : write s v = none := by
        rw [← Option.not_isSome_iff_eq_none, h.isSome_write]
        exact hs
      rw [hreplace, hnone]
      rfl
  case walked =>
    refine ⟨operands.map Prod.snd, ?_, by rw [hchildren, List.map_map]; rfl⟩
    refine mapM_map_eq_ok fun p hp => ?_
    rw [hread, (h.mem_iff_read p.1 p.2).mp hp]
    rfl

theorem usesAgree_inst {g : Graph} {i : InstRef} {inst : Inst} (hi : g.insts.get i = .ok inst)
    (hsizes : Addressable inst.kind.listSizes) :
    g.UsesAgree (.inst i) (inst.kind.operands.map fun p => .inst i p.1) := by
  refine .of_slots (Instruction.slotsAgree hsizes) (.inst i) inst.kind.kindName InstSlot.text
    (fun kind => { g with insts := g.insts.set i { inst with kind } }) ?_ ?_ ?_ ?_ ?_
  · intro s t hst
    injection hst
  · intro u
    cases u <;> simp [Use.user, eq_comm]
  · intro s
    simp only [readUse, hi]
    cases hs : inst.kind.read s <;> simp [bind, Except.bind, hs] <;> rfl
  · intro s v
    simp only [replaceUse, hi]
    cases hs : inst.kind.write s v <;>
      simp [bind, Except.bind, hs, setInstKind, Arena.modify, Arena.get_eq_ok_iff.mp hi] <;> rfl
  · exact children_inst (Arena.get_eq_ok_iff.mp hi)

theorem usesAgree_term {g : Graph} {t : TermRef} {term : Term} (ht : g.terms.get t = .ok term)
    (hsizes : Addressable term.kind.listSizes) :
    g.UsesAgree (.term t) (term.kind.operands.map fun p => .term t p.1) := by
  refine .of_slots (Terminator.slotsAgree hsizes) (.term t) term.kind.kindName TermSlot.text
    (fun kind => { g with terms := g.terms.set t { term with kind } }) ?_ ?_ ?_ ?_ ?_
  · intro s s' hs
    injection hs
  · intro u
    cases u <;> simp [Use.user, eq_comm]
  · intro s
    simp only [readUse, ht]
    cases hs : term.kind.read s <;> simp [bind, Except.bind, hs] <;> rfl
  · intro s v
    simp only [replaceUse, ht]
    cases hs : term.kind.write s v <;>
      simp [bind, Except.bind, hs, setTermKind, Arena.modify, Arena.get_eq_ok_iff.mp ht] <;> rfl
  · exact children_term (Arena.get_eq_ok_iff.mp ht)

/-- Listing operands, reading and writing slots and walking agree, on every instruction and every
terminator whose lists of operands have at most 2³² members. -/
theorem operands_uses_children_agree (g : Graph) :
    (∀ k : Instruction, Addressable k.listSizes → SlotsAgree k.operands k.read k.write k) ∧
    (∀ k : Terminator, Addressable k.listSizes → SlotsAgree k.operands k.read k.write k) ∧
    (∀ i inst, g.insts.get i = .ok inst → Addressable inst.kind.listSizes →
      ∃ uses, g.instUses i = .ok uses ∧ g.UsesAgree (.inst i) uses) ∧
    ∀ t term, g.terms.get t = .ok term → Addressable term.kind.listSizes →
      ∃ uses, g.termUses t = .ok uses ∧ g.UsesAgree (.term t) uses := by
  refine ⟨fun k => Instruction.slotsAgree, fun k => Terminator.slotsAgree, ?_, ?_⟩
  · intro i inst hi hsizes
    exact ⟨_, by rw [instUses, hi]; rfl, usesAgree_inst hi hsizes⟩
  · intro t term ht hsizes
    exact ⟨_, by rw [termUses, ht]; rfl, usesAgree_term ht hsizes⟩

/-- A call with two arguments and a bundle, and a terminator without its optional operand. -/
def bundleGraph : Graph :=
  { empty with
    insts := ⟨#[⟨.call .void (.func ⟨0⟩) [.const ⟨0⟩, .param ⟨0⟩] [⟨"deopt", [.const ⟨1⟩]⟩] false,
      .void, ⟨none, none⟩, none⟩]⟩
    terms := ⟨#[⟨.catchswitch (.inst ⟨0⟩) [.block ⟨0⟩] none, .void, ⟨none, none⟩, none⟩]⟩ }

theorem bundleGraph_uses_agree :
    (∃ inst, bundleGraph.insts.get ⟨0⟩ = .ok inst ∧ Addressable inst.kind.listSizes ∧
      SlotsAgree inst.kind.operands inst.kind.read inst.kind.write inst.kind) ∧
    (∃ term, bundleGraph.terms.get ⟨0⟩ = .ok term ∧ Addressable term.kind.listSizes ∧
      SlotsAgree term.kind.operands term.kind.read term.kind.write term.kind) ∧
    bundleGraph.UsesAgree (.inst ⟨0⟩) [.inst ⟨0⟩ .callee, .inst ⟨0⟩ (.arg 0), .inst ⟨0⟩ (.arg 1),
      .inst ⟨0⟩ (.bundleInput 0 0)] ∧
    bundleGraph.UsesAgree (.term ⟨0⟩) [.term ⟨0⟩ .scope, .term ⟨0⟩ (.handler 0)] := by
  obtain ⟨hinst, hterm, hiuses, htuses⟩ := operands_uses_children_agree bundleGraph
  refine ⟨⟨_, rfl, by decide, hinst _ (by decide)⟩, ⟨_, rfl, by decide, hterm _ (by decide)⟩, ?_, ?_⟩
  · obtain ⟨uses, huses, hagree⟩ := hiuses ⟨0⟩ _ rfl (by decide)
    cases huses
    exact hagree
  · obtain ⟨uses, huses, hagree⟩ := htuses ⟨0⟩ _ rfl (by decide)
    cases huses
    exact hagree

end IrGraph.Graph
