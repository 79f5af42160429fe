import IrGraph.Graph.Numbering
import IrGraph.Proofs.Arena
import IrGraph.Proofs.Steps

/-! Identifiers of local values as one family over a graph. Naming, numbering and the clearing of
numbers are maps over that family. -/

namespace IrGraph.Graph

/-- The identifier of a parameter, block, instruction or terminator that is there. -/
def identOf? (g : Graph) : Value → Option Ident
  | .param p => g.params.view Param.ident p
  | .block b => g.blocks.view Block.ident b
  | .inst i => g.insts.view Inst.ident i
  | .term t => g.terms.view Term.ident t
  | _ => none

/-- Changes every identifier by what its value says. -/
def mapIdents (φ : Value → Ident → Ident) (g : Graph) : Graph :=
  { g with
    params := g.params.mapRefs fun p x => { x with ident := φ (.param p) x.ident }
    blocks := g.blocks.mapRefs fun b x => { x with ident := φ (.block b) x.ident }
    insts := g.insts.mapRefs fun i x => { x with ident := φ (.inst i) x.ident }
    terms := g.terms.mapRefs fun t x => { x with ident := φ (.term t) x.ident } }

variable {g g' : Graph} {v : Value} {φ ψ : Value → Ident → Ident}

@[simp]
theorem identOf?_mapIdents (g : Graph) (φ : Value → Ident → Ident) (v : Value) :
    (g.mapIdents φ).identOf? v = (g.identOf? v).map (φ v) := by
  cases v <;> simp [identOf?, mapIdents, Arena.view, Function.comp_def]

theorem mapIdents_mapIdents (g : Graph) :
    (g.mapIdents φ).mapIdents ψ = g.mapIdents fun v ident => ψ v (φ v ident) := by
  simp only [mapIdents, Arena.mapRefs_mapRefs]

theorem mapIdents_congr (h : ∀ v ident, g.identOf? v = some ident → φ v ident = ψ v ident) :
    g.mapIdents φ = g.mapIdents ψ := by
  simp only [mapIdents, mk.injEq, true_and, and_true]
  refine ⟨?_, ?_, ?_, ?_⟩
  all_goals
    apply Arena.mapRefs_congr
    intro r x hr
    congr 1
    exact h _ _ (Arena.view_eq_some_iff.mpr ⟨x, hr, rfl⟩)

theorem mapIdents_eq_self (h : ∀ v ident, g.identOf? v = some ident → φ v ident = ident) :
    g.mapIdents φ = g := by
  rw [mapIdents_congr (ψ := fun _ ident => ident) h]
  simp [mapIdents, Arena.mapRefs_eq_self]

section Modify

variable {f : Ident → Ident} {ident : Ident}

theorem localIdent?_of_identOf? (h : g.identOf? v = some ident) :
    g.localIdent? v = .ok (some ident) := by
  cases v <;> simp only [identOf?, Arena.view_eq_some_iff, reduceCtorEq] at h
  all_goals
    obtain ⟨x, hx, rfl⟩ := h
    simp only [localIdent?, Arena.get_eq_ok_iff.mpr hx]
    rfl

theorem modifyIdent_eq_ok (h : g.modifyIdent v f = .ok g') : g' = g.mapIdents (onlyAt v f) := by
  cases v
  case param | block | inst | term =>
    simp only [modifyIdent, bind_eq_ok_iff, pure_eq_ok_iff, Arena.modify_eq_ok_iff] at h
    obtain ⟨_, ⟨-, rfl⟩, rfl⟩ := h
    simp only [mapIdents, mk.injEq, true_and, and_true]
    refine ⟨?_, ?_, ?_, ?_⟩
    all_goals
      first
      | exact (Arena.mapRefs_eq_self fun r x _ => by simp [onlyAt]).symm
      | refine Arena.mapRefs_congr fun r x _ => ?_
        simp only [onlyAt, Value.param.injEq, Value.block.injEq, Value.inst.injEq,
          Value.term.injEq]
        split <;> rfl
  all_goals
    obtain rfl : g = g' := Except.ok.inj h
    simp [mapIdents, onlyAt, Arena.mapRefs_eq_self]

theorem modifyIdent_of_identOf? (h : g.identOf? v = some ident) :
    g.modifyIdent v f = .ok (g.mapIdents (onlyAt v f)) := by
  have hok : ∃ g', g.modifyIdent v f = .ok g' := by
    cases v <;> simp only [identOf?, Arena.view_eq_some_iff, reduceCtorEq] at h
    all_goals
      obtain ⟨x, hx, -⟩ := h
      simp only [modifyIdent, Arena.modify_eq_ok_iff.mpr ⟨⟨x, hx⟩, rfl⟩]
      exact ⟨_, rfl⟩
  obtain ⟨g', hg'⟩ := hok
  rw [hg', modifyIdent_eq_ok hg']

end Modify

section Passes

theorem numberFrom_eq_mapIdents {name : String} {next : Nat} {l : List Value}
    {e : Option OutOfOrder} (h : g.numberFrom name next l = .ok (e, g')) :
    ∃ φ, g' = g.mapIdents φ := by
  induction l generalizing g next with
  | nil =>
    cases h
    exact ⟨fun _ ident => ident, (mapIdents_eq_self fun _ _ _ => rfl).symm⟩
  | cons v l ih =>
    simp only [numberFrom, bind_eq_ok_iff] at h
    obtain ⟨numbered, -, h⟩ := h
    split at h
    · exact ih h
    · obtain ⟨ident, -, h⟩ := bind_eq_ok_iff.mp h
      split at h
      · split at h
        · obtain ⟨_, -, h⟩ := bind_eq_ok_iff.mp h
          exact ih h
        · cases pure_eq_ok_iff.mp h
          exact ⟨fun _ ident => ident, (mapIdents_eq_self fun _ _ _ => rfl).symm⟩
      · obtain ⟨mid, hmid, h⟩ := bind_eq_ok_iff.mp h
        obtain ⟨_, -, h⟩ := bind_eq_ok_iff.mp h
        obtain ⟨φ, rfl⟩ := ih h
        rw [modifyIdent_eq_ok hmid, mapIdents_mapIdents]
        exact ⟨_, rfl⟩
      · exact ih h

theorem assignIds_eq_mapIdents {f : FuncRef} {e : Option OutOfOrder}
    (h : g.assignIds f = .ok (e, g')) : ∃ φ, g' = g.mapIdents φ := by
  simp only [assignIds, bind_eq_ok_iff] at h
  obtain ⟨func, -, values, -, h⟩ := h
  exact numberFrom_eq_mapIdents h

theorem resetNames_eq_mapIdents {f : FuncRef} (h : g.resetNames f = .ok g') :
    ∃ φ, g' = g.mapIdents φ := by
  simp only [resetNames, bind_eq_ok_iff] at h
  obtain ⟨func, -, values, -, h⟩ := h
  refine foldlM_induction (P := fun h => ∃ φ, h = g.mapIdents φ) ?_ ?_ h
  · rintro v - _ b' ⟨φ, rfl⟩ hv
    rw [modifyIdent_eq_ok hv, mapIdents_mapIdents]
    exact ⟨_, rfl⟩
  · exact ⟨fun _ ident => ident, (mapIdents_eq_self fun _ _ _ => rfl).symm⟩

end Passes

end IrGraph.Graph
