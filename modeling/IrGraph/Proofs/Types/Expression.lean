import IrGraph.Graph.Create
import IrGraph.Graph.Walk
import IrGraph.Proofs.Edit.Run
import IrGraph.Proofs.Slot.Listing
import IrGraph.Proofs.Types.Extends

/-! Constant expressions beside the instructions that do the same to the same operands: both are
typed alike when they are made, a walk goes on alike below them, and they have one name. -/

namespace IrGraph

namespace ConstExpr

theorem kindName_instruction (e : ConstExpr) : e.instruction.kindName = e.kindName := by
  cases e <;> rfl

theorem operands_instruction (e : ConstExpr) : e.instruction.operands.map Prod.snd = e.parts := by
  cases e with
  | getElementPtr _ source indices =>
    exact congrArg (source :: ·) (map_snd_mapIdx_slot.trans indices.map_id)
  | _ => rfl

end ConstExpr

namespace Graph

variable {g : Graph} {e : ConstExpr}

theorem addInst_eq_map (g : Graph) (kind : Instruction) (ident : Ident) :
    g.addInst kind ident = (g.instType kind).map fun typed =>
      (g.insts.next,
        { g with types := typed.2, insts := g.insts.push ⟨kind, typed.1, ident, none⟩ }) := by
  unfold addInst
  cases g.instType kind <;> rfl

theorem addConst_expr_eq_map (g : Graph) (e : ConstExpr) :
    g.addConst (.expr e) = (g.instType e.instruction).map fun typed =>
      (g.consts.next,
        { g with types := typed.2, consts := g.consts.push ⟨.expr e, typed.1⟩ }) := by
  rw [addConst, constType, exprType_eq_instType]
  cases g.instType e.instruction <;> rfl

theorem children_expr {c : ConstRef} {x : StoredConstant} (h : g.consts.get? c = some x)
    (hx : x.data = .expr e) :
    g.children c.node = .ok (e.instruction.operands.map (·.2.node)) := by
  rw [children_const h, hx, Constant.parts, ← e.operands_instruction, List.map_map]
  rfl

/-- A constant expression gets the type that its instruction gets, with the same additions to the
table of types, or both are refused for the same reason. In every graph that has them, the same
nodes in the same order are below both, and one word names both. -/
theorem expr_agrees_with_instruction (g : Graph) (e : ConstExpr) (ident : Ident) :
    ((∃ fault, g.addConst (.expr e) = .error fault ∧
          g.addInst e.instruction ident = .error fault) ∨
        ∃ type types,
          g.addConst (.expr e) =
            .ok (g.consts.next, { g with types, consts := g.consts.push ⟨.expr e, type⟩ }) ∧
          g.addInst e.instruction ident =
            .ok (g.insts.next,
              { g with types, insts := g.insts.push ⟨e.instruction, type, ident, none⟩ })) ∧
      (∀ c x, g.consts.get? c = some x → x.data = .expr e →
        g.children c.node = .ok (e.instruction.operands.map (·.2.node))) ∧
      (∀ i x, g.insts.get? i = some x → x.kind = e.instruction →
        g.children i.node = .ok (e.instruction.operands.map (·.2.node))) ∧
      (Constant.expr e).kindName = e.instruction.kindName := by
  refine ⟨?_, fun c x hc hx => children_expr hc hx, ?_, e.kindName_instruction.symm⟩
  · rw [addConst_expr_eq_map, addInst_eq_map]
    cases g.instType e.instruction with
    | error fault => exact .inl ⟨fault, rfl, rfl⟩
    | ok typed => exact .inr ⟨typed.1, typed.2, rfl, rfl⟩
  · intro i x hi hx
    rw [children_inst hi, hx]

/-- Two vectors compared, in a constant and in an instruction. -/
def comparedEdits : List Edit :=
  [.intern (.int 32), .intern (.vector 2 ⟨5⟩ false), .addInt ⟨5⟩ 3,
    .addConst (.vector ⟨6⟩ [.const ⟨0⟩, .const ⟨0⟩]),
    .addConst (.expr (.icmp .eq (.const ⟨1⟩) (.const ⟨1⟩))),
    .addInst (.icmp .eq (.const ⟨1⟩) (.const ⟨1⟩)) .anonymous]

def comparedGraph : Graph :=
  match empty.run comparedEdits with
  | .ok g => g
  | .error _ => empty

theorem comparedGraph_expr_agrees :
    (∃ type types,
      comparedGraph.addConst (.expr (.icmp .eq (.const ⟨1⟩) (.const ⟨1⟩))) =
          .ok (⟨3⟩, { comparedGraph with
            types, consts := comparedGraph.consts.push
              ⟨.expr (.icmp .eq (.const ⟨1⟩) (.const ⟨1⟩)), type⟩ }) ∧
        comparedGraph.addInst (.icmp .eq (.const ⟨1⟩) (.const ⟨1⟩)) .anonymous =
          .ok (⟨1⟩, { comparedGraph with
            types, insts := comparedGraph.insts.push
              ⟨.icmp .eq (.const ⟨1⟩) (.const ⟨1⟩), type, .anonymous, none⟩ })) ∧
      comparedGraph.children ⟨.const, 2⟩ = .ok [⟨.const, 1⟩, ⟨.const, 1⟩] ∧
      comparedGraph.children ⟨.inst, 0⟩ = .ok [⟨.const, 1⟩, ⟨.const, 1⟩] := by
  obtain ⟨hmade, hconst, hinst, -⟩ :=
    expr_agrees_with_instruction comparedGraph (.icmp .eq (.const ⟨1⟩) (.const ⟨1⟩)) .anonymous
  refine ⟨?_, hconst ⟨2⟩ _ rfl rfl, hinst ⟨0⟩ _ rfl rfl⟩
  obtain ⟨fault, hfault, -⟩ | hmade := hmade
  · cases hfault
  · exact hmade

end Graph

end IrGraph
