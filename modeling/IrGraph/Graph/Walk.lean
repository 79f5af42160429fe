import IrGraph.Graph.Use

/-! Depth-first walks. Each node is shown to a visitor at most once, whatever cycles and sharing
the graph has; the visitor says whether the walk goes on below it. -/

namespace IrGraph.Graph

def children (g : Graph) (n : Node) : Except Fault (List Node) := do
  match n.kind with
  | .module =>
    let m ← g.modules.get ⟨n.index⟩
    return m.globals.map (·.node) ++ m.funcs.map (·.node) ++ m.aliases.map (·.node) ++
      m.ifuncs.map (·.node) ++ m.useListOrders.map (·.node) ++
      m.useListOrderBlocks.map (·.node) ++ m.namedMetadata.map (·.node)
  | .globalVar => return (← g.globals.get ⟨n.index⟩).init.toList.map (·.node)
  | .func =>
    let f ← g.funcs.get ⟨n.index⟩
    let values := [f.prefixData, f.prologueData, f.personality].filterMap id
    return f.params.map (·.node) ++ f.blocks.map (·.node) ++ values.map (·.node) ++
      f.useListOrders.map (·.node)
  | .alias => return [(← g.aliases.get ⟨n.index⟩).aliasee.node]
  | .ifunc => return [(← g.ifuncs.get ⟨n.index⟩).resolver.node]
  | .param => return []
  | .block =>
    let b ← g.blocks.get ⟨n.index⟩
    return b.insts.map (·.node) ++ b.term.toList.map (·.node)
  | .inst => return (← g.insts.get ⟨n.index⟩).kind.operands.map (·.2.node)
  | .term => return (← g.terms.get ⟨n.index⟩).kind.operands.map (·.2.node)
  | .const => return (← g.consts.get ⟨n.index⟩).data.parts.map (·.node)
  | .metadata => return (← g.metadata.get ⟨n.index⟩).children
  | .namedMetadata => return (← g.namedMetadata.get ⟨n.index⟩).nodes.map (·.node)
  | .useListOrder => return [(← g.useListOrders.get ⟨n.index⟩).value.node]
  | .useListOrderBlock =>
    let u ← g.useListOrderBlocks.get ⟨n.index⟩
    return [u.func.node, u.block.node]

section Children

variable {g : Graph}

theorem children_inst {i : InstRef} {x : Inst} (h : g.insts.get? i = some x) :
    g.children i.node = .ok (x.kind.operands.map (·.2.node)) := by
  change (do return (← g.insts.get i).kind.operands.map (Value.node ∘ Prod.snd)) = _
  rw [Arena.get_eq_ok_iff.mpr h]
  rfl

theorem children_term {t : TermRef} {x : Term} (h : g.terms.get? t = some x) :
    g.children t.node = .ok (x.kind.operands.map (·.2.node)) := by
  change (do return (← g.terms.get t).kind.operands.map (Value.node ∘ Prod.snd)) = _
  rw [Arena.get_eq_ok_iff.mpr h]
  rfl

theorem children_const {c : ConstRef} {x : StoredConstant} (h : g.consts.get? c = some x) :
    g.children c.node = .ok (x.data.parts.map (·.node)) := by
  change (do return (← g.consts.get c).data.parts.map Value.node) = _
  rw [Arena.get_eq_ok_iff.mpr h]
  rfl

theorem children_metadata {m : MetadataRef} {n : MetadataNode} (h : g.metadata.get? m = some n) :
    g.children m.node = .ok n.children := by
  change (do return (← g.metadata.get m).children) = _
  rw [Arena.get_eq_ok_iff.mpr h]
  rfl

end Children

def nodes (g : Graph) : List Node :=
  g.modules.refs.map (·.node) ++ g.globals.refs.map (·.node) ++ g.funcs.refs.map (·.node) ++
    g.aliases.refs.map (·.node) ++ g.ifuncs.refs.map (·.node) ++ g.params.refs.map (·.node) ++
    g.blocks.refs.map (·.node) ++ g.insts.refs.map (·.node) ++ g.terms.refs.map (·.node) ++
    g.consts.refs.map (·.node) ++ g.metadata.refs.map (·.node) ++
    g.namedMetadata.refs.map (·.node) ++ g.useListOrders.refs.map (·.node) ++
    g.useListOrderBlocks.refs.map (·.node)

/-- Only a node that exists has anything below it. -/
theorem mem_nodes_of_children {g : Graph} {n : Node} {below : List Node}
    (h : g.children n = .ok below) : n ∈ g.nodes ∨ below = [] := by
  obtain ⟨kind, index⟩ := n
  have found {k : Kind} {α : Type} {a : Arena k α} {x : α} (hx : a.get ⟨index⟩ = .ok x) :
      (⟨k, index⟩ : Node) ∈ a.refs.map (·.node) :=
    List.mem_map_of_mem (Arena.mem_refs_of_get hx)
  cases kind
  case param => exact .inr (by simpa [children, pure, Except.pure] using h.symm)
  all_goals
    left
    simp only [children] at h
    obtain ⟨x, hx, -⟩ := bind_eq_ok h
    have := found hx
    simp [nodes, this]

/-- What a visitor answers for a node. -/
inductive Visit (β : Type)
  /-- Go on, into the children of the node. -/
  | advance
  /-- Go on, but not below the node. -/
  | skip
  | stop (b : β)
  deriving DecidableEq, Repr

def unvisited (g : Graph) (visited : List Node) : Nat :=
  g.nodes.countP (· ∉ visited)

theorem unvisited_cons_le (g : Graph) (n : Node) (visited : List Node) :
    g.unvisited (n :: visited) ≤ g.unvisited visited :=
  List.countP_mono_left fun m _ h => by simp_all

theorem unvisited_cons_lt (g : Graph) {n : Node} {visited : List Node} (hn : n ∈ g.nodes)
    (hv : n ∉ visited) : g.unvisited (n :: visited) < g.unvisited visited := by
  unfold unvisited
  obtain ⟨before, after, h⟩ := List.append_of_mem hn
  have hle (l : List Node) : l.countP (· ∉ n :: visited) ≤ l.countP (· ∉ visited) :=
    List.countP_mono_left fun m _ h => by simp_all
  have h1 := hle before
  have h2 := hle after
  have here : decide (n ∉ n :: visited) = false := by simp
  have there : decide (n ∉ visited) = true := by simp [hv]
  simp only [h, List.countP_append, List.countP_cons, here, there, Bool.false_eq_true,
    if_false, if_true]
  omega

theorem lex_of_le_of_lt {a b c d : Nat} (h : a ≤ b) (h' : c < d) :
    Prod.Lex (· < ·) (· < ·) (a, c) (b, d) := by
  rcases Nat.lt_or_eq_of_le h with h | rfl
  · exact Prod.Lex.left _ _ h
  · exact Prod.Lex.right _ h'

/-- Visits the nodes of `pending`, first to last, each followed by what is below it. -/
def walkFrom {σ β : Type} (g : Graph) (visit : σ → Node → Visit β × σ) (state : σ)
    (visited pending : List Node) : Except Fault (Option β × σ) :=
  match pending with
  | [] => .ok (none, state)
  | n :: rest =>
    if _hn : n ∈ visited then g.walkFrom visit state visited rest
    else
      match visit state n with
      | (.stop b, state) => .ok (some b, state)
      | (.skip, state) => g.walkFrom visit state (n :: visited) rest
      | (.advance, state) =>
        match _hb : g.children n with
        | .error e => .error e
        | .ok below =>
          g.walkFrom visit state (n :: visited) (below.filter (· ∉ n :: visited) ++ rest)
termination_by (g.unvisited visited, pending.length)
decreasing_by
  · exact Prod.Lex.right _ (by simp)
  · exact lex_of_le_of_lt (g.unvisited_cons_le n visited) (by simp)
  · rcases mem_nodes_of_children _hb with h | rfl
    · exact Prod.Lex.left _ _ (g.unvisited_cons_lt h _hn)
    · exact lex_of_le_of_lt (g.unvisited_cons_le n visited) (by simp)

/-- Walks everything that can be reached from `root`, until the visitor stops. -/
def walk {σ β : Type} (g : Graph) (visit : σ → Node → Visit β × σ) (state : σ) (root : Node) :
    Except Fault (Option β × σ) :=
  g.walkFrom visit state [] [root]

def walkNodes (g : Graph) (root : Node) : Except Fault (List Node) := do
  let collect (seen : List Node) (n : Node) : Visit Empty × List Node := (.advance, n :: seen)
  let (_, seen) ← g.walk collect [] root
  return seen.reverse

end IrGraph.Graph
