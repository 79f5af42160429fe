import IrGraph.Proofs.Steps
import IrGraph.Proofs.Walk.Calls

/-! What a walk visits when the visitor decides by the node alone: each node that a path of
advanced nodes leads to, and each of them once. -/

namespace IrGraph.Graph

def Below (g : Graph) (n m : Node) : Prop :=
  ∃ below, g.children n = .ok below ∧ m ∈ below

/-- A path of nodes that the walk goes into, the last one apart. -/
abbrev Reached (g : Graph) (descend : Node → Bool) : Node → Node → Prop :=
  Relation.ReflTransGen fun n m => descend n = true ∧ g.Below n m

structure Closed (g : Graph) (descend : Node → Bool) (root : Node) (s : Set Node) : Prop where
  root_mem : root ∈ s
  below_mem : ∀ n ∈ s, descend n = true → ∀ m, g.Below n m → m ∈ s

/-- A visitor with an effect for each call and one decision for each node. -/
def deciding {σ β : Type} (descend : Node → Bool) (effect : σ → Node → σ) (state : σ) (n : Node) :
    Visit β × σ :=
  (if descend n then .advance else .skip, effect state n)

/-- Between two calls of the visitor: what is below an advanced node has been visited or is
pending. The pending nodes may have been visited in the meantime. -/
structure WalkInvariant (g : Graph) (descend : Node → Bool) (root : Node)
    (visited pending : List Node) : Prop where
  nodup : visited.Nodup
  reached : ∀ n ∈ visited ++ pending, g.Reached descend root n
  root_mem : root ∈ visited ++ pending
  below_mem : ∀ n ∈ visited, descend n = true → ∀ m, g.Below n m → m ∈ visited ++ pending

section

variable {g : Graph} {descend : Node → Bool} {root n : Node} {visited rest below : List Node}

theorem WalkInvariant.start : g.WalkInvariant descend root [] [root] :=
  ⟨.nil, by simp [Relation.ReflTransGen.refl], by simp, by simp⟩

theorem WalkInvariant.seen (h : g.WalkInvariant descend root visited (n :: rest))
    (hn : n ∈ visited) : g.WalkInvariant descend root visited rest := by
  have hsub : ∀ m, m ∈ visited ++ n :: rest ↔ m ∈ visited ++ rest := by
    intro m
    simp only [List.mem_append, List.mem_cons]
    constructor
    · rintro (hm | rfl | hm)
      · exact Or.inl hm
      · exact Or.inl hn
      · exact Or.inr hm
    · tauto
  exact ⟨h.nodup, fun m hm => h.reached m ((hsub m).mpr hm), (hsub root).mp h.root_mem,
    fun m hm ha k hk => (hsub k).mp (h.below_mem m hm ha k hk)⟩

theorem WalkInvariant.skip (h : g.WalkInvariant descend root visited (n :: rest))
    (hn : n ∉ visited) (ha : descend n = false) :
    g.WalkInvariant descend root (n :: visited) rest := by
  have hsub : ∀ m, m ∈ visited ++ n :: rest ↔ m ∈ n :: visited ++ rest := by
    intro m
    simp only [List.cons_append, List.mem_append, List.mem_cons]
    tauto
  refine ⟨List.nodup_cons.mpr ⟨hn, h.nodup⟩, fun m hm => h.reached m ((hsub m).mpr hm),
    (hsub root).mp h.root_mem, ?_⟩
  intro m hm hadv k hk
  rcases List.mem_cons.mp hm with rfl | hm
  · simp [ha] at hadv
  · exact (hsub k).mp (h.below_mem m hm hadv k hk)

theorem WalkInvariant.advance (h : g.WalkInvariant descend root visited (n :: rest))
    (hn : n ∉ visited) (ha : descend n = true) (hb : g.children n = .ok below) :
    g.WalkInvariant descend root (n :: visited) (below.filter (· ∉ n :: visited) ++ rest) := by
  have hreach : g.Reached descend root n := h.reached n (by simp)
  have hsub : ∀ m, m ∈ visited ++ n :: rest →
      m ∈ n :: visited ++ (below.filter (· ∉ n :: visited) ++ rest) := by
    intro m hm
    simp only [List.cons_append, List.mem_append, List.mem_cons] at hm ⊢
    tauto
  have hbelow : ∀ m ∈ below, m ∈ n :: visited ++ (below.filter (· ∉ n :: visited) ++ rest) := by
    intro m hm
    by_cases hv : m ∈ n :: visited
    · exact List.mem_append_left _ hv
    · refine List.mem_append_right _ (List.mem_append_left _ (List.mem_filter.mpr ⟨hm, ?_⟩))
      simpa using hv
  refine ⟨List.nodup_cons.mpr ⟨hn, h.nodup⟩, ?_, hsub root h.root_mem, ?_⟩
  · intro m hm
    simp only [List.cons_append, List.mem_append, List.mem_cons] at hm
    rcases hm with rfl | hm | hm | hm
    · exact hreach
    · exact h.reached m (by simp [hm])
    · exact hreach.tail ⟨ha, below, hb, List.mem_of_mem_filter hm⟩
    · exact h.reached m (by simp [hm])
  · intro m hm hadv k hk
    rcases List.mem_cons.mp hm with rfl | hm
    · obtain ⟨below', hb', hk⟩ := hk
      obtain rfl : below' = below := by simpa [hb] using hb'.symm
      exact hbelow k hk
    · exact hsub k (h.below_mem m hm hadv k hk)

theorem Reached.mem {s : Set Node} (h : g.Reached descend root n) (hs : g.Closed descend root s) :
    n ∈ s := by
  induction h with
  | refl => exact hs.root_mem
  | tail _ hstep ih => exact hs.below_mem _ ih hstep.1 _ hstep.2

/-- When nothing is pending any more, the visited nodes are the least closed set. -/
theorem WalkInvariant.isLeast (h : g.WalkInvariant descend root visited []) :
    IsLeast {s | g.Closed descend root s} {m | m ∈ visited} := by
  obtain ⟨-, hreached, hroot, hbelow⟩ := h
  simp only [List.append_nil] at hreached hroot hbelow
  exact ⟨⟨hroot, hbelow⟩, fun s hs m hm => (hreached m hm).mem hs⟩

theorem deciding_advance {σ β : Type} (effect : σ → Node → σ) (state : σ)
    (h : descend n = true) :
    deciding (β := β) descend effect state n = (.advance, effect state n) := by
  simp [deciding, h]

theorem deciding_skip {σ β : Type} (effect : σ → Node → σ) (state : σ) (h : descend n = false) :
    deciding (β := β) descend effect state n = (.skip, effect state n) := by
  simp [deciding, h]

theorem descend_of_deciding {σ β : Type} {effect : σ → Node → σ} {state state' : σ}
    (h : deciding (β := β) descend effect state n = (.advance, state')) : descend n = true := by
  by_contra hd
  simp [deciding, hd] at h

theorem not_descend_of_deciding {σ β : Type} {effect : σ → Node → σ} {state state' : σ}
    (h : deciding (β := β) descend effect state n = (.skip, state')) : descend n = false := by
  by_contra hd
  simp [deciding, hd] at h

theorem WalkInvariant.walkFrom
    (hrange : ∀ n, g.Reached descend root n → descend n = true → ∃ below, g.children n = .ok below)
    {pending : List Node} (h : g.WalkInvariant descend root visited pending) :
    ∃ order : List Node, g.WalkInvariant descend root (order.reverse ++ visited) [] ∧
      ∀ {σ β : Type} (effect : σ → Node → σ) (state : σ),
        g.walkFrom (deciding (β := β) descend effect) state visited pending =
          .ok (none, order.foldl effect state) := by
  -- any visitor's walk has the cases of this one, which does nothing
  induction (), visited, pending using walkFrom.induct g
    (deciding (β := Empty) descend fun (_ : Unit) _ => ()) with
  | case1 _ visited => exact ⟨[], h, fun effect state => walkFrom_nil⟩
  | case2 _ visited n rest hn ih =>
    obtain ⟨order, hinv, hwalk⟩ := ih (h.seen hn)
    exact ⟨order, hinv, fun effect state => (walkFrom_seen hn).trans (hwalk effect state)⟩
  | case3 _ visited n rest hn b => exact b.elim
  | case4 _ visited n rest hn _ hv ih =>
    have hd : descend n = false := not_descend_of_deciding hv
    obtain ⟨order, hinv, hwalk⟩ := ih (h.skip hn hd)
    refine ⟨n :: order, by simpa using hinv, fun effect state => ?_⟩
    rw [walkFrom_skip hn (deciding_skip effect state hd), hwalk]
    rfl
  | case5 _ visited n rest hn _ hv e hb =>
    obtain ⟨below, hb'⟩ := hrange n (h.reached n (by simp)) (descend_of_deciding hv)
    simp [hb] at hb'
  | case6 _ visited n rest hn _ hv below hb ih =>
    have hd : descend n = true := descend_of_deciding hv
    obtain ⟨order, hinv, hwalk⟩ := ih (h.advance hn hd hb)
    refine ⟨n :: order, by simpa using hinv, fun effect state => ?_⟩
    rw [walkFrom_advance hn (deciding_advance effect state hd) hb, hwalk]
    rfl

/-- A walk that collects what it visits has, when it ends, all that can be reached. -/
theorem WalkInvariant.collect {seen seen' pending : List Node} {answer : Option Empty}
    (h : g.WalkInvariant (fun _ => true) root visited pending) (hseen : ∀ n ∈ visited, n ∈ seen)
    (hw : g.walkFrom (fun seen n => (.advance, n :: seen)) seen visited pending =
      .ok (answer, seen')) (hn : g.Reached (fun _ => true) root n) : n ∈ seen' := by
  induction seen, visited, pending using walkFrom.induct g
    (fun (seen : List Node) n => ((.advance : Visit Empty), n :: seen)) with
  | case1 seen visited =>
    cases walkFrom_nil.symm.trans hw
    exact hseen n (hn.mem h.isLeast.1)
  | case2 seen visited m rest hm ih =>
    rw [walkFrom_seen hm] at hw
    exact ih (h.seen hm) hseen hw
  | case3 seen visited m rest hm b => exact b.elim
  | case4 seen visited m rest hm _ hv => cases hv
  | case5 seen visited m rest hm _ hv e hb => cases (walkFrom_fault hm hv hb).symm.trans hw
  | case6 seen visited m rest hm _ hv below hb ih =>
    rw [walkFrom_advance hm hv hb] at hw
    cases hv
    refine ih (h.advance hm rfl hb) (fun k hk => ?_) hw
    rcases List.mem_cons.mp hk with rfl | hk
    · exact List.mem_cons_self
    · exact List.mem_cons_of_mem m (hseen k hk)

theorem exists_walkNodes
    (hrange : ∀ n, g.Reached (fun _ => true) root n → ∃ below, g.children n = .ok below) :
    ∃ order, g.walkNodes root = .ok order := by
  obtain ⟨order, -, hwalk⟩ := WalkInvariant.start.walkFrom fun n hn _ => hrange n hn
  have hcollect : g.walkFrom (β := Empty) (fun seen n => (.advance, n :: seen)) [] [] [root] =
      .ok (none, order.foldl (fun seen n => n :: seen) []) := hwalk (fun seen n => n :: seen) []
  rw [walkNodes, walk, hcollect]
  exact ⟨_, rfl⟩

theorem mem_of_walkNodes {order : List Node} (h : g.walkNodes root = .ok order)
    (hn : g.Reached (fun _ => true) root n) : n ∈ order := by
  simp only [walkNodes, walk, bind_eq_ok_iff, Prod.exists, pure_eq_ok_iff] at h
  obtain ⟨answer, seen, hw, rfl⟩ := h
  exact List.mem_reverse.mpr (WalkInvariant.start.collect (by simp) hw hn)

/-- A walk whose references are in range ends. It calls the visitor once for each node of the
least set that has the root and all that is below its advanced nodes: the nodes at the end of a
path of advanced nodes, whatever other paths a skipped node cuts off. -/
theorem walk_visits_least_closed (g : Graph) (descend : Node → Bool) (root : Node)
    (hrange : ∀ n, g.Reached descend root n → descend n = true →
      ∃ below, g.children n = .ok below) :
    ∃ order : List Node, order.Nodup ∧
      IsLeast {s | g.Closed descend root s} {n | n ∈ order} ∧
      (∀ n, n ∈ order ↔ g.Reached descend root n) ∧
      (∀ {σ β : Type} (effect : σ → Node → σ) (state : σ),
        g.walk (deciding (β := β) descend effect) state root =
          .ok (none, order.foldl effect state)) ∧
      ((∀ n, descend n = true) → g.walkNodes root = .ok order) := by
  obtain ⟨order, hinv, hwalk⟩ := WalkInvariant.start.walkFrom hrange
  have hleast := hinv.isLeast
  have hnodup := hinv.nodup
  have hreached := hinv.reached
  simp only [List.append_nil, List.mem_reverse, List.nodup_reverse] at hleast hnodup hreached
  refine ⟨order, hnodup, hleast, fun n => ⟨hreached n, fun h => h.mem hleast.1⟩, hwalk, ?_⟩
  intro hall
  have hcollect : deciding (β := Empty) descend (fun seen n => n :: seen) =
      fun seen n => (.advance, n :: seen) := by
    funext seen n
    exact deciding_advance _ _ (hall n)
  have hh := hwalk (β := Empty) (fun seen n => n :: seen) []
  rw [hcollect] at hh
  rw [walkNodes, walk, hh]
  simp [bind, Except.bind, pure, Except.pure]

end

def loopNodes : List Node :=
  [⟨.block, 0⟩, ⟨.inst, 0⟩, ⟨.block, 1⟩, ⟨.term, 1⟩, ⟨.term, 0⟩]

theorem loopGraph_walk_collects :
    loopGraph.walk (deciding (β := Empty) (· ≠ ⟨.term, 1⟩) fun seen n => n :: seen) []
      ⟨.block, 0⟩ = .ok (none, loopNodes.reverse) := by
  cbv

theorem loopGraph_walk_visits :
    (∀ n, loopGraph.Reached (· ≠ ⟨.term, 1⟩) ⟨.block, 0⟩ n → decide (n ≠ ⟨.term, 1⟩) = true →
        ∃ below, loopGraph.children n = .ok below) ∧
      IsLeast {s | loopGraph.Closed (· ≠ ⟨.term, 1⟩) ⟨.block, 0⟩ s} {n | n ∈ loopNodes} := by
  have hclosed : loopGraph.Closed (· ≠ ⟨.term, 1⟩) ⟨.block, 0⟩ {n | n ∈ loopNodes} := by
    refine ⟨by simp [loopNodes], ?_⟩
    rintro n hn hadvance m ⟨below, hb, hm⟩
    change n ∈ loopNodes at hn
    change m ∈ loopNodes
    fin_cases hn
    case «3» => cases hadvance
    all_goals
      cases hb
      fin_cases hm <;> decide
  have hrange : ∀ n, loopGraph.Reached (· ≠ ⟨.term, 1⟩) ⟨.block, 0⟩ n →
      decide (n ≠ ⟨.term, 1⟩) = true → ∃ below, loopGraph.children n = .ok below := by
    intro n hn hadvance
    have hmem : n ∈ loopNodes := hn.mem hclosed
    fin_cases hmem
    · exact ⟨_, rfl⟩
    · exact ⟨_, rfl⟩
    · exact ⟨_, rfl⟩
    · cases hadvance
    · exact ⟨_, rfl⟩
  refine ⟨hrange, ?_⟩
  obtain ⟨order, -, hleast, -, hwalk, -⟩ :=
    walk_visits_least_closed loopGraph (· ≠ ⟨.term, 1⟩) ⟨.block, 0⟩ hrange
  have horder := (hwalk (β := Empty) (fun seen n => n :: seen) []).symm.trans
    loopGraph_walk_collects
  simp only [Except.ok.injEq, Prod.mk.injEq, true_and, List.foldl_flip_cons_eq_append',
    List.append_nil, List.reverse_inj] at horder
  subst horder
  exact hleast

end IrGraph.Graph
