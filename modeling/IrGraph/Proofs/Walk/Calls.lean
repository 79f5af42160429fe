import Mathlib
import IrGraph.Proofs.Walk.Search

/-! The calls of a visitor, in a walk and in a search. A visitor that keeps what it is asked, and
in which state, tells the two apart if anything does. -/

namespace IrGraph.Graph

section

variable {σ β : Type} (g : Graph) (visit : σ → Node → Visit β × σ)

/-- A visitor that also keeps its calls: the state it was in, and the node. -/
def recorded (log : σ × List (σ × Node)) (n : Node) : Visit β × σ × List (σ × Node) :=
  let (answer, state) := visit log.1 n
  (answer, state, log.2 ++ [(log.1, n)])

/-- The calls of a visitor in a search, first to last. -/
def searchCalls (state : σ) (root : Node) : List (σ × Node) :=
  (g.search (recorded visit) (state, []) root).state.2

/-- Of the nodes in these calls, those exist that the visitor lets the search go into. -/
def InRange (calls : List (σ × Node)) : Prop :=
  ∀ call ∈ calls, (visit call.1 call.2).1 = .advance → ∃ below, g.children call.2 = .ok below

def Found.forget {α : Type} (r : Found (σ × α) β) : Found σ β :=
  ⟨r.state.1, r.visited, r.ending⟩

variable {g visit}

theorem recorded_eq {log log' : σ × List (σ × Node)} {n : Node} {a : Visit β}
    (h : recorded visit log n = (a, log')) :
    visit log.1 n = (a, log'.1) ∧ log'.2 = log.2 ++ [(log.1, n)] := by
  simp only [recorded, Prod.mk.injEq] at h
  obtain ⟨ha, rfl⟩ := h
  exact ⟨Prod.ext ha rfl, rfl⟩

variable (g visit)

theorem search_recorded_forget :
    (∀ log visited n, (g.searchNode (recorded visit) log visited n).1.forget =
      (g.searchNode visit log.1 visited n).1) ∧
    ∀ log visited pending, (g.searchEach (recorded visit) log visited pending).1.forget =
      (g.searchEach visit log.1 visited pending).1 := by
  refine g.search_induction (recorded visit) ?seen ?stop ?skip ?fault ?advance ?nil ?finished ?ended
  case seen =>
    intro log visited n hn
    rw [searchNode_seen hn, searchNode_seen hn]
    rfl
  case stop =>
    intro log visited n hn b log' hv
    rw [searchNode_stop hn hv, searchNode_stop hn (recorded_eq hv).1]
    rfl
  case skip =>
    intro log visited n hn log' hv
    rw [searchNode_skip hn hv, searchNode_skip hn (recorded_eq hv).1]
    rfl
  case fault =>
    intro log visited n hn log' hv e hb
    rw [searchNode_fault hn hv hb, searchNode_fault hn (recorded_eq hv).1 hb]
    rfl
  case advance =>
    intro log visited n hn log' hv below hb ih
    rw [searchNode_advance hn hv hb, searchNode_advance hn (recorded_eq hv).1 hb]
    exact ih
  case nil =>
    intro log visited
    rw [searchEach_nil, searchEach_nil]
    rfl
  case finished =>
    intro log visited n rest he hn ih
    rw [searchEach_cons_finished rfl he, searchEach_cons_finished hn.symm he]
    exact ih
  case ended =>
    intro log visited n rest he hn
    rw [searchEach_cons_ended rfl he, searchEach_cons_ended hn.symm he]

/-- Calls are kept, and a search fails at a call below whose node it was to go on. -/
theorem search_recorded_failed :
    (∀ log visited n, let r := (g.searchNode (recorded visit) log visited n).1
      log.2 ⊆ r.state.2 ∧ ∀ e, r.ending = .failed e → ¬ g.InRange visit r.state.2) ∧
    ∀ log visited pending, let r := (g.searchEach (recorded visit) log visited pending).1
      log.2 ⊆ r.state.2 ∧ ∀ e, r.ending = .failed e → ¬ g.InRange visit r.state.2 := by
  refine g.search_induction (recorded visit) ?seen ?stop ?skip ?fault ?advance ?nil ?finished ?ended
  case seen =>
    intro log visited n hn
    rw [searchNode_seen hn]
    exact ⟨List.Subset.refl _, by simp⟩
  case stop =>
    intro log visited n hn b log' hv
    rw [searchNode_stop hn hv]
    exact ⟨by simp [(recorded_eq hv).2], by simp⟩
  case skip =>
    intro log visited n hn log' hv
    rw [searchNode_skip hn hv]
    exact ⟨by simp [(recorded_eq hv).2], by simp⟩
  case fault =>
    intro log visited n hn log' hv e hb
    obtain ⟨hv', hlog⟩ := recorded_eq hv
    rw [searchNode_fault hn hv hb]
    refine ⟨by simp [hlog], fun _ _ hrange => ?_⟩
    obtain ⟨below, hb'⟩ := hrange (log.1, n) (by simp [hlog]) (by rw [hv'])
    simp [hb] at hb'
  case advance =>
    intro log visited n hn log' hv below hb ih
    rw [searchNode_advance hn hv hb]
    exact ⟨List.Subset.trans (by simp [(recorded_eq hv).2]) ih.1, ih.2⟩
  case nil =>
    intro log visited
    rw [searchEach_nil]
    exact ⟨List.Subset.refl _, by simp⟩
  case finished =>
    intro log visited n rest he hn ih
    rw [searchEach_cons_finished rfl he]
    exact ⟨List.Subset.trans hn.1 ih.1, ih.2⟩
  case ended =>
    intro log visited n rest he hn
    rw [searchEach_cons_ended rfl he]
    exact hn

theorem walk_eq_answer (state : σ) (root : Node) :
    g.walk visit state root = (g.search visit state root).answer := by
  rw [walk, (g.walkFrom_simulates visit).1, search, Found.answer]
  congr
  funext state visited
  exact walkFrom_nil

/-- A walk whose references are in range calls the visitor for the same nodes in the same states
as the recursive search, and ends with the same answer. -/
theorem walk_calls_eq_search (state : σ) (root : Node)
    (hrange : g.InRange visit (g.searchCalls visit state root)) :
    ∃ answer final, (g.search visit state root).answer = .ok (answer, final) ∧
      g.walk visit state root = .ok (answer, final) ∧
      g.walk (recorded visit) (state, []) root =
        .ok (answer, final, g.searchCalls visit state root) := by
  have hforget := (g.search_recorded_forget visit).1 (state, []) [] root
  have hfailed := ((g.search_recorded_failed visit).1 (state, []) [] root).2
  simp only [walk_eq_answer]
  simp only [searchCalls, search] at hrange ⊢
  rw [← hforget]
  generalize (g.searchNode (recorded visit) (state, []) [] root).1 = r at hrange hfailed ⊢
  obtain ⟨⟨final, calls⟩, visited, ending⟩ := r
  cases ending with
  | finished => exact ⟨none, final, rfl, rfl, rfl⟩
  | stopped b => exact ⟨some b, final, rfl, rfl, rfl⟩
  | failed e => exact absurd hrange (hfailed e rfl)

end

/-- A block that branches to itself, and to a block that branches out of the graph. -/
def loopGraph : Graph :=
  { empty with
    blocks := ⟨#[⟨⟨none, none⟩, [⟨0⟩], some ⟨0⟩, none⟩, ⟨⟨none, none⟩, [], some ⟨1⟩, none⟩]⟩
    insts := ⟨#[⟨.phi .void [⟨.inst ⟨0⟩, .block ⟨0⟩⟩, ⟨.inst ⟨0⟩, .block ⟨1⟩⟩], .void,
      ⟨none, none⟩, some ⟨0⟩⟩]⟩
    terms := ⟨#[⟨.condbr (.inst ⟨0⟩) (.block ⟨0⟩) (.block ⟨1⟩), .void, ⟨none, none⟩, some ⟨0⟩⟩,
      ⟨.br (.block ⟨7⟩), .void, ⟨none, none⟩, some ⟨1⟩⟩]⟩ }

/-- Counts its calls, skips instructions and stops at the branch out of the graph. -/
def countingVisitor (count : Nat) (n : Node) : Visit Node × Nat :=
  (if n = ⟨.term, 1⟩ then .stop n else if n.kind = .inst then .skip else .advance, count + 1)

theorem loopGraph_search :
    (loopGraph.search countingVisitor 0 ⟨.block, 0⟩).answer = .ok (some ⟨.term, 1⟩, 5) ∧
      loopGraph.searchCalls countingVisitor 0 ⟨.block, 0⟩ =
        [(0, ⟨.block, 0⟩), (1, ⟨.inst, 0⟩), (2, ⟨.term, 0⟩), (3, ⟨.block, 1⟩),
          (4, ⟨.term, 1⟩)] := by
  constructor <;> cbv

theorem loopGraph_walk_calls :
    loopGraph.InRange countingVisitor (loopGraph.searchCalls countingVisitor 0 ⟨.block, 0⟩) ∧
      loopGraph.walk (recorded countingVisitor) (0, []) ⟨.block, 0⟩ =
        .ok (some ⟨.term, 1⟩, 5, [(0, ⟨.block, 0⟩), (1, ⟨.inst, 0⟩), (2, ⟨.term, 0⟩),
          (3, ⟨.block, 1⟩), (4, ⟨.term, 1⟩)]) := by
  obtain ⟨hanswer, hcalls⟩ := loopGraph_search
  have hrange : loopGraph.InRange countingVisitor
      (loopGraph.searchCalls countingVisitor 0 ⟨.block, 0⟩) := by
    rw [hcalls]
    intro call hcall hadvance
    fin_cases hcall
    · exact ⟨_, rfl⟩
    · cases hadvance
    · exact ⟨_, rfl⟩
    · exact ⟨_, rfl⟩
    · cases hadvance
  refine ⟨hrange, ?_⟩
  obtain ⟨answer, final, hsearch, -, hwalk⟩ :=
    walk_calls_eq_search loopGraph countingVisitor 0 ⟨.block, 0⟩ hrange
  rw [hanswer] at hsearch
  cases hsearch
  rw [hwalk, hcalls]

end IrGraph.Graph
