import IrGraph.Proofs.Edit.Effect
import IrGraph.Proofs.Edit.Idents

/-! Constants are added one at a time and never changed. So each keeps the type that was computed
for it: a literal its own, an operator that of its first operand. -/

namespace IrGraph

/-- Whether a constant is a number of a type. -/
def Constant.IsLiteralOf (type : TypeRef) : Constant → Prop
  | .int own _ | .float own _ => own = type
  | _ => False

instance (type : TypeRef) : (data : Constant) → Decidable (data.IsLiteralOf type)
  | .int own _ | .float own _ => inferInstanceAs (Decidable (own = type))
  | .null _ | .noneToken | .struct .. | .array .. | .charArray .. | .vector .. | .zeroInitializer _
  | .undef _ | .blockAddress .. | .expr _ => .isFalse id

namespace Constant

variable {data : Constant} {own type type' : TypeRef}

@[simp]
theorem isLiteralOf_int (v : BitVec 128) : (int own v).IsLiteralOf type ↔ own = type :=
  Iff.rfl

@[simp]
theorem isLiteralOf_float (v : Double) : (float own v).IsLiteralOf type ↔ own = type :=
  Iff.rfl

theorem IsLiteralOf.unique (h : data.IsLiteralOf type) (h' : data.IsLiteralOf type') :
    type = type' := by
  cases data with
  | int own v | float own v => exact Eq.trans (Eq.symm h) h'
  | _ => exact h.elim

end Constant

/-- Literals have their own type. An operator on a constant that came before has the type of that
constant. -/
structure ConstsTyped (consts : Arena .const StoredConstant) : Prop where
  literal : ∀ c x type, consts.get? c = some x → x.data.IsLiteralOf type → x.type = type
  operator : ∀ c op l r type, consts.get? c = some ⟨.expr (.binary op (.const l) r), type⟩ →
    l.index < c.index → ∃ x, consts.get? l = some x ∧ x.type = type

namespace Graph

variable {g g' : Graph} {c : ConstRef} {data : Constant} {type : TypeRef} {types : TypeTable}

theorem addBytes_eq_addConst {bytes : List UInt8} (h : g.addBytes bytes = .ok (c, g')) :
    ∃ (mid : Graph) (data : Constant), mid.consts = g.consts ∧ mid.addConst data = .ok (c, g') :=
  ⟨((g.intern (.int 8)).2.intern _).2, _, rfl, h⟩

/-- What each new constant keeps of the constants, every edit keeps. -/
theorem consts_induction {P : Arena .const StoredConstant → Prop} {e : Edit}
    (hadd : ∀ (g g' : Graph) data c, P g.consts → g.addConst data = .ok (c, g') → P g'.consts)
    (hg : P g.consts) (h : e.apply g = .ok g') : P g'.consts := by
  cases e with
  | intern | addModule | addGlobal | addAlias | addIFunc | addUseListOrder | addUseListOrderBlock
  | addMetadata | addNamedMetadata | addParam | addBlock =>
    cases h
    exact hg
  | addInst | addComment =>
    obtain ⟨i, h⟩ := return_snd_eq_ok_iff.mp h
    obtain ⟨type, types, -, rfl⟩ := addInst_eq_ok h
    exact hg
  | addTerm =>
    obtain ⟨t, h⟩ := return_snd_eq_ok_iff.mp h
    obtain ⟨type, -, rfl⟩ := addTerm_eq_ok h
    exact hg
  | addConst | addInt =>
    obtain ⟨c, h⟩ := return_snd_eq_ok_iff.mp h
    exact hadd g g' _ c hg h
  | addZero =>
    obtain ⟨c, h⟩ := return_snd_eq_ok_iff.mp h
    obtain ⟨data, -, -, h⟩ := addZero_eq_ok h
    exact hadd g g' data c hg h
  | addCString | addPascalString =>
    obtain ⟨c, h⟩ := return_snd_eq_ok_iff.mp h
    obtain ⟨mid, data, hmid, h⟩ := addBytes_eq_addConst h
    exact hadd mid g' data c (hmid ▸ hg) h
  | simplify =>
    obtain ⟨c, h⟩ := return_snd_eq_ok_iff.mp h
    refine simplify_induction (P := (P ·.consts)) ?_ hg h
    exact fun g g' _ _ literal c hg _ _ _ ha => hadd g g' literal c hg ha
  | refreshType =>
    obtain ⟨changed, h⟩ := return_snd_eq_ok_iff.mp h
    obtain ⟨_, _, _, -, -, rfl⟩ := refreshType_eq_ok h
    exact hg
  | refreshTypes =>
    refine refreshTypes_induction (P := (P ·.consts)) (fun i g g' changed hg hr => ?_) hg h
    obtain ⟨_, _, _, -, -, rfl⟩ := refreshType_eq_ok hr
    exact hg
  | setInstKind =>
    obtain ⟨-, rfl⟩ := setInstKind_eq_ok h
    exact hg
  | setTermKind =>
    obtain ⟨-, rfl⟩ := setTermKind_eq_ok h
    exact hg
  | replaceUse u =>
    cases u with
    | inst =>
      obtain ⟨_, _, -, -, h⟩ := replaceUse_inst_eq_ok h
      obtain ⟨-, rfl⟩ := setInstKind_eq_ok h
      exact hg
    | term =>
      obtain ⟨_, _, -, -, h⟩ := replaceUse_term_eq_ok h
      obtain ⟨-, rfl⟩ := setTermKind_eq_ok h
      exact hg
  | rename v name =>
    rw [modifyIdent_eq_ok (f := (·.rename name)) h]
    exact hg
  | assignIds =>
    obtain ⟨e, h⟩ := return_snd_eq_ok_iff.mp h
    obtain ⟨φ, rfl⟩ := assignIds_eq_mapIdents h
    exact hg
  | resetNames =>
    obtain ⟨φ, rfl⟩ := resetNames_eq_mapIdents h
    exact hg
  | setMetadata =>
    obtain ⟨metadata, rfl⟩ := setMetadata_eq_ok h
    exact hg
  | addFunc =>
    obtain ⟨f, h⟩ := return_snd_eq_ok_iff.mp h
    obtain ⟨-, -, -, rfl⟩ := addFunc_eq_ok h
    exact hg
  | pushBlock =>
    obtain ⟨_, _, -, -, -, rfl⟩ := pushBlock_eq_ok h
    exact hg
  | pushInst =>
    obtain ⟨_, _, -, -, -, rfl⟩ := pushInst_eq_ok h
    exact hg
  | insertInstBefore =>
    obtain ⟨_, _, _, -, -, -, -, rfl⟩ := insertInstBefore_eq_ok h
    exact hg
  | removeInst =>
    obtain ⟨_, _, -, -, rfl⟩ := removeInst_eq_ok h
    exact hg
  | setTerm =>
    obtain ⟨_, _, -, -, -, rfl⟩ := setTerm_eq_ok h
    exact hg

theorem constType_of_isLiteralOf (h : data.IsLiteralOf type) :
    g.constType data = .ok (type, g.types) := by
  cases data with
  | int own v | float own v =>
    obtain rfl := h
    rfl
  | _ => exact h.elim

theorem constsTyped_addConst (h : ConstsTyped g.consts) (ha : g.addConst data = .ok (c, g')) :
    ConstsTyped g'.consts := by
  obtain ⟨type, types, htype, rfl⟩ := addConst_eq_ok ha
  constructor
  · intro c x own hc hlit
    rw [Arena.get?_push] at hc
    split at hc
    · cases hc
      cases htype.symm.trans (constType_of_isLiteralOf hlit)
      rfl
    · exact h.literal c x own hc hlit
  · intro c op l r own hc hl
    rw [Arena.get?_push] at hc
    split at hc
    · -- the type of the new one was read off its first operand
      subst c
      cases hc
      obtain ⟨x, hx⟩ := Arena.exists_get?_of_lt hl
      refine ⟨x, Arena.get?_push_of_get? hx _, ?_⟩
      simp only [constType, exprType, valueType, hx] at htype
      cases htype
      rfl
    · obtain ⟨x, hx, htypes⟩ := h.operator c op l r own hc hl
      exact ⟨x, Arena.get?_push_of_get? hx _, htypes⟩

theorem constsTyped_of_run {edits : List Edit} (h : empty.run edits = .ok g) :
    ConstsTyped g.consts := by
  have hempty : ConstsTyped Graph.empty.consts := by
    constructor <;> intro c <;> simp [Graph.empty, Arena.empty, Arena.get?]
  refine run_induction (P := (ConstsTyped ·.consts)) ?_ hempty h
  exact fun e g g' hg he => consts_induction (fun _ _ _ _ => constsTyped_addConst) hg he

end Graph

end IrGraph
