import IrGraph.Print.Operand
import IrGraph.Proofs.Numbering.Reset
import IrGraph.Proofs.Text.Name

/-! Operands after numbering. When a pass goes through, each value of the function has a name or the
number of its position; so none is printed as a question mark, and two are printed alike only by a
name that both have. -/

namespace IrGraph.Graph

def operandText (g : Graph) (v : Value) : Except Fault String :=
  return (← g.operandDoc v).render

def nameOf? (g : Graph) (v : Value) : Option String :=
  (g.identOf? v).bind Ident.name

variable {g g' : Graph} {f : FuncRef} {v w : Value} {name : String} {next : Nat} {l : List Value}
  {ident : Ident}

theorem operandText_of_identOf? (h : g.identOf? v = some ident) :
    g.operandText v = .ok ("%" ++ ident.text) := by
  have hident : g.localIdent? v = .ok (some ident) := localIdent?_of_identOf? h
  have hdoc : g.operandDoc v = .ok [.text "%", .text ident.text] := by
    cases v <;> simp only [identOf?, reduceCtorEq] at h
    all_goals
      rw [operandDoc, operandWithin, hident]
      rfl
  rw [operandText, hdoc]
  simp [Doc.render, Piece.render, bind, Except.bind, pure, Except.pure]

section Pass

/-- A pass that goes through begins with a value that it passes over, or with one that gets the
next number. -/
theorem numberFrom_cons_eq_ok (hv : g.identOf? v = some ident)
    (h : g.numberFrom name next (v :: l) = .ok (none, g')) :
    if g.takesNumber v then
      (g.numbered next [v]).numberFrom name (next + 1) l = .ok (none, g')
    else g.numberFrom name next l = .ok (none, g') := by
  have hyields : g.isNumbered v = .ok (g.yieldsValue v) := by
    obtain ⟨yields, hyields, -⟩ := bind_eq_ok_iff.mp h
    rw [hyields, yieldsValue_of_isNumbered hyields]
  rw [numberFrom_cons hyields hv] at h
  by_cases htakes : g.takesNumber v
  · rw [if_pos htakes] at h ⊢
    cases hid : ident.id with
    | none =>
      rw [hid] at h
      obtain ⟨after, hafter, h⟩ := bind_eq_ok_iff.mp h
      rwa [numbered_singleton, nextNumber_eq_ok hafter] at h
    | some found =>
      simp only [hid] at h
      split at h
      case isTrue hfound =>
        obtain ⟨after, hafter, h⟩ := bind_eq_ok_iff.mp h
        have hnext : g.idOf? v = some next := by simp [idOf?, hv, hid, hfound]
        rwa [numbered_singleton_eq_self hnext, ← nextNumber_eq_ok hafter]
      case isFalse => cases h
  · rwa [if_neg htakes] at h ⊢

theorem numberFrom_eq_numbered (hl : l.Nodup) (hthere : ∀ v ∈ l, ∃ ident, g.identOf? v = some ident)
    (h : g.numberFrom name next l = .ok (none, g')) :
    g' = g.numbered next (l.filter g.takesNumber) := by
  induction l generalizing g next with
  | nil =>
    cases h
    exact (numbered_nil _ next).symm
  | cons v l ih =>
    obtain ⟨hv, hl⟩ := List.nodup_cons.mp hl
    obtain ⟨ident, hident⟩ := hthere v List.mem_cons_self
    have hthere' : ∀ w ∈ l, ∃ ident, g.identOf? w = some ident :=
      fun w hw => hthere w (List.mem_cons_of_mem v hw)
    have hstep := numberFrom_cons_eq_ok hident h
    by_cases htakes : g.takesNumber v
    · rw [if_pos htakes] at hstep
      have hfilter : l.filter (g.numbered next [v]).takesNumber = l.filter g.takesNumber :=
        List.filter_congr fun w _ => takesNumber_numbered w
      rw [ih hl (fun w hw => exists_identOf?_numbered (hthere' w hw)) hstep, hfilter,
        List.filter_cons_of_pos htakes, numbered_cons fun hmem => hv (List.mem_of_mem_filter hmem)]
    · rw [if_neg htakes] at hstep
      rw [ih hl hthere' hstep, List.filter_cons_of_neg htakes]

end Pass

theorem assignIds_eq_numbered (h : g.Linked) (ha : g.assignIds f = .ok (none, g')) :
    g' = g.numbered 0 (g.unnamedLocals f) := by
  simp only [assignIds, bind_eq_ok_iff] at ha
  obtain ⟨func, hf, values, hvalues, hpass⟩ := ha
  rw [locals_eq_places h (Arena.get_eq_ok_iff.mp hf)] at hvalues
  obtain rfl := Except.ok.inj hvalues
  exact numberFrom_eq_numbered (nodup_places h) (fun v hv => exists_identOf?_of_mem h hv) hpass

theorem exists_ident_of_assignIds (h : g.Linked) (ha : g.assignIds f = .ok (none, g'))
    (hhome : g'.homeOf? v = some f) (hyields : g'.yieldsValue v) :
    ∃ ident, g'.identOf? v = some ident ∧
      (ident.name = none → ∃ k, ident.id = some k ∧ (g.unnamedLocals f)[k]? = some v) := by
  rw [assignIds_eq_numbered h ha, numbered] at hhome hyields ⊢
  rw [homeOf?_mapIdents] at hhome
  rw [yieldsValue_mapIdents] at hyields
  have hplace : v ∈ g.places f := (mem_places_iff h).mpr hhome
  obtain ⟨ident, hident⟩ := exists_identOf?_of_mem h hplace
  rw [identOf?_mapIdents, hident]
  refine ⟨_, rfl, fun hname => ?_⟩
  have hunnamed : ident.name = none := by
    split at hname <;> exact hname
  have htakes : g.takesNumber v := by
    simp [takesNumber, hyields, hident, Ident.isUnnamed, hunnamed]
  have hmem : v ∈ g.unnamedLocals f := List.mem_filter.mpr ⟨hplace, htakes⟩
  refine ⟨(g.unnamedLocals f).idxOf v, ?_, ?_⟩
  · simp [hmem]
  · exact List.getElem?_idxOf hmem

/-- When numbering goes through, each value that belongs to the function and has a result is printed
as a percent sign and its identifier, none of them as a question mark, and two of them alike only when
they have one name. Whatever a name is, it is not printed as any number is. -/
theorem assignIds_operands_distinct {edits : List Edit} (hrun : Graph.empty.run edits = .ok g)
    (ha : g.assignIds f = .ok (none, g')) :
    (∀ v, g'.homeOf? v = some f → g'.yieldsValue v →
      ∃ ident, g'.identOf? v = some ident ∧ g'.operandText v = .ok ("%" ++ ident.text) ∧
        g'.operandText v ≠ .ok "%?") ∧
    (∀ v w, g'.homeOf? v = some f → g'.yieldsValue v → g'.homeOf? w = some f → g'.yieldsValue w →
      v ≠ w →
      (g'.operandText v = g'.operandText w ↔
        ∃ name, g'.nameOf? v = some name ∧ g'.nameOf? w = some name)) ∧
    ∀ (name : String) (id : Option Nat) (number : Nat),
      "%" ++ (Ident.mk (some name) id).text ≠ "%" ++ (Ident.mk none (some number)).text := by
  have hlinked : g.Linked := Linked.empty.run hrun
  refine ⟨fun v hhome hyields => ?_, fun v w hv hvyields hw hwyields hne => ?_, ?_⟩
  · obtain ⟨ident, hident, hnumber⟩ := exists_ident_of_assignIds hlinked ha hhome hyields
    have htext : g'.operandText v = .ok ("%" ++ ident.text) := operandText_of_identOf? hident
    refine ⟨ident, hident, htext, fun hmark => ?_⟩
    rw [htext, Except.ok.injEq] at hmark
    have hquestion : ident.text = "?" := (String.append_right_inj "%").mp hmark
    obtain rfl := (Ident.text_eq_questionMark_iff ident).mp hquestion
    obtain ⟨k, hk, -⟩ := hnumber rfl
    cases hk
  · obtain ⟨identv, hidentv, hnumberv⟩ := exists_ident_of_assignIds hlinked ha hv hvyields
    obtain ⟨identw, hidentw, hnumberw⟩ := exists_ident_of_assignIds hlinked ha hw hwyields
    rw [operandText_of_identOf? hidentv, operandText_of_identOf? hidentw, Except.ok.injEq,
      String.append_right_inj, Ident.text_eq_text_iff]
    simp only [nameOf?, hidentv, hidentw, Option.bind_some]
    constructor
    · rintro ⟨hname, hid⟩
      cases hnone : identv.name with
      | some name => exact ⟨name, rfl, by rw [← hname, hnone]⟩
      | none =>
        -- two numbers are positions of two values in one list
        obtain ⟨k, hk, hkv⟩ := hnumberv hnone
        obtain ⟨j, hj, hjw⟩ := hnumberw (hname ▸ hnone)
        obtain rfl : k = j := Option.some.inj (by rw [← hk, hid hnone, hj])
        exact absurd (Option.some.inj (hkv.symm.trans hjw)) hne
    · rintro ⟨name, hnamev, hnamew⟩
      exact ⟨hnamev.trans hnamew.symm, by simp [hnamev]⟩
  · intro name id number heq
    exact nameText_ne_repr name number ((String.append_right_inj "%").mp heq)

/-- The sample without its numbers, where a parameter is named like an instruction's number. -/
def namesakeGraph : Graph :=
  (sampleGraph.cleared ⟨0⟩).mapIdents (onlyAt (.param ⟨0⟩) (·.rename (some "1")))

theorem namesakeGraph_operands_distinct :
    Graph.empty.run (sampleRun ++ [.resetNames ⟨0⟩, .rename (.param ⟨0⟩) (some "1")]) =
        .ok namesakeGraph ∧
      ∃ g', namesakeGraph.assignIds ⟨0⟩ = .ok (none, g') ∧
        g'.nameOf? (.param ⟨0⟩) = some "1" ∧ g'.operandText (.inst ⟨1⟩) = .ok "%1" ∧
        g'.operandText (.param ⟨0⟩) ≠ g'.operandText (.inst ⟨1⟩) := by
  have hrun : Graph.empty.run
      (sampleRun ++ [.resetNames ⟨0⟩, .rename (.param ⟨0⟩) (some "1")]) = .ok namesakeGraph := by
    rfl
  have ha : namesakeGraph.assignIds ⟨0⟩ =
      .ok (none, namesakeGraph.numbered 0 [.block ⟨0⟩, .inst ⟨1⟩]) := by
    rfl
  obtain ⟨htexts, hdistinct, -⟩ := assignIds_operands_distinct hrun ha
  refine ⟨hrun, _, ha, rfl, ?_, ?_⟩
  · obtain ⟨ident, hident, htext, -⟩ := htexts (.inst ⟨1⟩) rfl rfl
    have hnumber : some ⟨none, some 1⟩ = some ident := hident
    obtain rfl : ⟨none, some 1⟩ = ident := Option.some.inj hnumber
    rw [htext]
    decide
  · rw [Ne, hdistinct (.param ⟨0⟩) (.inst ⟨1⟩) rfl rfl rfl rfl (by decide)]
    rintro ⟨name, -, hname⟩
    have hnone : none = some name := hname
    cases hnone

end IrGraph.Graph
