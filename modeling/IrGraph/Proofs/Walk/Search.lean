import IrGraph.Graph.Walk

/-! The recursive search behind a walk: preorder, depth first, with one set of visited nodes for
all branches. A walk keeps a list of pending nodes instead, in which a node may stand many times
and after it has been visited; it shows the visitor the same nodes in the same states. -/

namespace IrGraph.Graph

inductive Ending (β : Type)
  | finished
  | stopped (b : β)
  | failed (e : Fault)
  deriving DecidableEq, Repr

/-- What a search leaves: the visitor's state, and the visited nodes, last one first. -/
structure Found (σ β : Type) where
  state : σ
  visited : List Node
  ending : Ending β
  deriving DecidableEq, Repr

abbrev FoundSince (σ β : Type) (visited : List Node) :=
  { r : Found σ β // visited ⊆ r.visited }

theorem unvisited_anti (g : Graph) {visited visited' : List Node} (h : visited ⊆ visited') :
    g.unvisited visited' ≤ g.unvisited visited :=
  List.countP_mono_left fun n _ hn => by
    simp only [decide_eq_true_eq] at hn ⊢
    exact fun hv => hn (h hv)

section

variable {σ β : Type} (g : Graph) (visit : σ → Node → Visit β × σ)

mutual

/-- Searches at a node. Nothing happens when it has been visited; else it is marked and shown to
the visitor, who stops everything, skips what is below the node, or lets the search go on there. -/
def searchNode (state : σ) (visited : List Node) (n : Node) : FoundSince σ β visited :=
  if _hn : n ∈ visited then ⟨⟨state, visited, .finished⟩, List.Subset.refl _⟩
  else
    match visit state n with
    | (.stop b, state) => ⟨⟨state, n :: visited, .stopped b⟩, List.subset_cons_self _ _⟩
    | (.skip, state) => ⟨⟨state, n :: visited, .finished⟩, List.subset_cons_self _ _⟩
    | (.advance, state) =>
      match _hb : g.children n with
      | .error e => ⟨⟨state, n :: visited, .failed e⟩, List.subset_cons_self _ _⟩
      | .ok below =>
        let r := searchEach state (n :: visited) below
        ⟨r.1, List.subset_of_cons_subset r.2⟩
termination_by (g.unvisited visited, 1)
decreasing_by
  rcases mem_nodes_of_children _hb with h | rfl
  · exact Prod.Lex.left _ _ (g.unvisited_cons_lt h _hn)
  · exact lex_of_le_of_lt (g.unvisited_cons_le n visited) (by simp)

/-- Searches at each node in turn, as long as no search ends early. -/
def searchEach (state : σ) (visited : List Node) : List Node → FoundSince σ β visited
  | [] => ⟨⟨state, visited, .finished⟩, List.Subset.refl _⟩
  | n :: rest =>
    let r := searchNode state visited n
    match r.1.ending with
    | .finished =>
      let r' := searchEach r.1.state r.1.visited rest
      ⟨r'.1, List.Subset.trans r.2 r'.2⟩
    | _ => r
termination_by pending => (g.unvisited visited, 2 * pending.length)
decreasing_by
  · exact lex_of_le_of_lt (Nat.le_refl _) (by simp; omega)
  · exact lex_of_le_of_lt (g.unvisited_anti r.2) (by simp)

end

end

def search {σ β : Type} (g : Graph) (visit : σ → Node → Visit β × σ) (state : σ) (root : Node) :
    Found σ β :=
  (g.searchNode visit state [] root).1

/-- Goes on behind a search that has not ended early. -/
def Found.andThen {σ β : Type} (r : Found σ β)
    (next : σ → List Node → Except Fault (Option β × σ)) : Except Fault (Option β × σ) :=
  match r.ending with
  | .finished => next r.state r.visited
  | .stopped b => .ok (some b, r.state)
  | .failed e => .error e

def Found.answer {σ β : Type} (r : Found σ β) : Except Fault (Option β × σ) :=
  r.andThen fun state _ => .ok (none, state)

section

variable {σ β : Type} {g : Graph} {visit : σ → Node → Visit β × σ} {state state' : σ}
  {visited rest below : List Node} {n : Node} {b : β} {e : Fault}

theorem searchNode_seen (hn : n ∈ visited) :
    (g.searchNode visit state visited n).1 = ⟨state, visited, .finished⟩ := by
  rw [searchNode, dif_pos hn]

theorem searchNode_stop (hn : n ∉ visited) (hv : visit state n = (.stop b, state')) :
    (g.searchNode visit state visited n).1 = ⟨state', n :: visited, .stopped b⟩ := by
  simp [searchNode, hn, hv]

theorem searchNode_skip (hn : n ∉ visited) (hv : visit state n = (.skip, state')) :
    (g.searchNode visit state visited n).1 = ⟨state', n :: visited, .finished⟩ := by
  simp [searchNode, hn, hv]

theorem searchNode_fault (hn : n ∉ visited) (hv : visit state n = (.advance, state'))
    (hb : g.children n = .error e) :
    (g.searchNode visit state visited n).1 = ⟨state', n :: visited, .failed e⟩ := by
  rw [searchNode, dif_neg hn]
  simp only [hv]
  split <;> simp_all

theorem searchNode_advance (hn : n ∉ visited) (hv : visit state n = (.advance, state'))
    (hb : g.children n = .ok below) :
    (g.searchNode visit state visited n).1 = (g.searchEach visit state' (n :: visited) below).1 := by
  rw [searchNode, dif_neg hn]
  simp only [hv]
  split <;> simp_all

theorem searchEach_nil : (g.searchEach visit state visited []).1 = ⟨state, visited, .finished⟩ := by
  rw [searchEach]

theorem searchEach_cons_finished {r : Found σ β} (hr : (g.searchNode visit state visited n).1 = r)
    (he : r.ending = .finished) :
    (g.searchEach visit state visited (n :: rest)).1 =
      (g.searchEach visit r.state r.visited rest).1 := by
  subst hr
  rw [searchEach]
  simp only [he]

theorem searchEach_cons_ended {r : Found σ β} (hr : (g.searchNode visit state visited n).1 = r)
    (he : r.ending ≠ .finished) : (g.searchEach visit state visited (n :: rest)).1 = r := by
  subst hr
  rw [searchEach]
  split <;> simp_all

theorem walkFrom_nil : g.walkFrom visit state visited [] = .ok (none, state) := by
  rw [walkFrom]

theorem walkFrom_seen (hn : n ∈ visited) :
    g.walkFrom visit state visited (n :: rest) = g.walkFrom visit state visited rest := by
  rw [walkFrom, dif_pos hn]

theorem walkFrom_stop (hn : n ∉ visited) (hv : visit state n = (.stop b, state')) :
    g.walkFrom visit state visited (n :: rest) = .ok (some b, state') := by
  simp [walkFrom, hn, hv]

theorem walkFrom_skip (hn : n ∉ visited) (hv : visit state n = (.skip, state')) :
    g.walkFrom visit state visited (n :: rest) = g.walkFrom visit state' (n :: visited) rest := by
  simp [walkFrom, hn, hv]

theorem walkFrom_fault (hn : n ∉ visited) (hv : visit state n = (.advance, state'))
    (hb : g.children n = .error e) : g.walkFrom visit state visited (n :: rest) = .error e := by
  rw [walkFrom, dif_neg hn]
  simp only [hv]
  split <;> simp_all

theorem walkFrom_advance (hn : n ∉ visited) (hv : visit state n = (.advance, state'))
    (hb : g.children n = .ok below) :
    g.walkFrom visit state visited (n :: rest) =
      g.walkFrom visit state' (n :: visited) (below.filter (· ∉ n :: visited) ++ rest) := by
  rw [walkFrom, dif_neg hn]
  simp only [hv]
  split <;> simp_all

theorem Found.andThen_finished {r : Found σ β} (he : r.ending = .finished)
    (next : σ → List Node → Except Fault (Option β × σ)) :
    r.andThen next = next r.state r.visited := by
  rw [Found.andThen, he]

theorem Found.andThen_ended {r : Found σ β} (he : r.ending ≠ .finished)
    (next next' : σ → List Node → Except Fault (Option β × σ)) :
    r.andThen next = r.andThen next' := by
  unfold Found.andThen
  split <;> simp_all

end

section

variable {σ β : Type} (g : Graph) (visit : σ → Node → Visit β × σ)

theorem search_induction {atNode : σ → List Node → Node → Prop}
    {atEach : σ → List Node → List Node → Prop}
    (seen : ∀ state visited n, n ∈ visited → atNode state visited n)
    (stop : ∀ state visited n, n ∉ visited → ∀ b state', visit state n = (.stop b, state') →
      atNode state visited n)
    (skip : ∀ state visited n, n ∉ visited → ∀ state', visit state n = (.skip, state') →
      atNode state visited n)
    (fault : ∀ state visited n, n ∉ visited → ∀ state', visit state n = (.advance, state') →
      ∀ e, g.children n = .error e → atNode state visited n)
    (advance : ∀ state visited n, n ∉ visited → ∀ state', visit state n = (.advance, state') →
      ∀ below, g.children n = .ok below → atEach state' (n :: visited) below →
      atNode state visited n)
    (nil : ∀ state visited, atEach state visited [])
    (finished : ∀ state visited n rest, (g.searchNode visit state visited n).1.ending = .finished →
      atNode state visited n →
      atEach (g.searchNode visit state visited n).1.state
        (g.searchNode visit state visited n).1.visited rest →
      atEach state visited (n :: rest))
    (ended : ∀ state visited n rest, (g.searchNode visit state visited n).1.ending ≠ .finished →
      atNode state visited n → atEach state visited (n :: rest)) :
    (∀ state visited n, atNode state visited n) ∧
      ∀ state visited pending, atEach state visited pending :=
  searchNode.mutual_induct g visit atNode atEach seen stop skip fault advance nil
    (fun state visited n rest he hn h _ => finished state visited n rest he hn h)
    (fun state visited n rest he hn => ended state visited n rest he hn)

/-- The nodes that are pending in front of `rest` are those of a list that had not been visited
when they were put there. The walk goes through them as the search goes through the list, since
no call of the search forgets a visited node. -/
theorem walkFrom_simulates :
    (∀ state visited n rest, g.walkFrom visit state visited (n :: rest) =
      (g.searchNode visit state visited n).1.andThen fun state visited =>
        g.walkFrom visit state visited rest) ∧
    ∀ state visited pending, ∀ seen ⊆ visited, ∀ rest,
      g.walkFrom visit state visited (pending.filter (· ∉ seen) ++ rest) =
        (g.searchEach visit state visited pending).1.andThen fun state visited =>
          g.walkFrom visit state visited rest := by
  refine g.search_induction visit ?seen ?stop ?skip ?fault ?advance ?nil ?finished ?ended
  case seen =>
    intro state visited n hn rest
    rw [walkFrom_seen hn, searchNode_seen hn]
    rfl
  case stop =>
    intro state visited n hn b state' hv rest
    rw [walkFrom_stop hn hv, searchNode_stop hn hv]
    rfl
  case skip =>
    intro state visited n hn state' hv rest
    rw [walkFrom_skip hn hv, searchNode_skip hn hv]
    rfl
  case fault =>
    intro state visited n hn state' hv e hb rest
    rw [walkFrom_fault hn hv hb, searchNode_fault hn hv hb]
    rfl
  case advance =>
    intro state visited n hn state' hv below hb ih rest
    rw [walkFrom_advance hn hv hb, searchNode_advance hn hv hb]
    exact ih (n :: visited) (List.Subset.refl _) rest
  case nil =>
    intro state visited seen hs rest
    rw [searchEach_nil]
    rfl
  case finished =>
    intro state visited n pending he ihn ih seen hs rest
    have hkept := (g.searchNode visit state visited n).2
    rw [searchEach_cons_finished rfl he, ← ih seen (List.Subset.trans hs hkept) rest]
    by_cases hn : n ∈ seen
    · rw [List.filter_cons_of_neg (by simpa using hn), searchNode_seen (hs hn)]
    · rw [List.filter_cons_of_pos (by simpa using hn), List.cons_append, ihn,
        Found.andThen_finished he]
  case ended =>
    intro state visited n pending he ihn seen hs rest
    have hn : n ∉ seen := fun hn => he (by rw [searchNode_seen (hs hn)])
    rw [searchEach_cons_ended rfl he, List.filter_cons_of_pos (by simpa using hn),
      List.cons_append, ihn]
    exact Found.andThen_ended he _ _

end

end IrGraph.Graph
