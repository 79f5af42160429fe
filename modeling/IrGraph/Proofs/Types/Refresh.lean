import IrGraph.Proofs.Link.Linked
import IrGraph.Proofs.Types.Extends

/-! Computing the types of a function again. The pass goes along the layout once; when the operands
that decide on a type come before their users, each type it computes stays the one that the
instruction's kind and operands give, and a second pass has nothing to do. -/

namespace IrGraph.Graph

/-- The instructions of a function in layout order. -/
def funcInsts (g : Graph) (f : FuncRef) : List InstRef :=
  (g.funcs.members Func.blocks f).flatMap (g.blocks.members Block.insts)

/-- An operand that decides on the type of an instruction comes before it, if it is an instruction
of the same function. -/
def TypesInOrder (g : Graph) (f : FuncRef) : Prop :=
  ∀ i ∈ g.funcInsts f, ∀ x, g.insts.get? i = some x → ∀ j ∈ g.funcInsts f,
    .inst j ∈ x.kind.typeOperands → [j, i].Sublist (g.funcInsts f)

/-- The type of an instruction is the one that its kind gives, and the table has all that it takes
to compute it. -/
def Settled (g : Graph) (i : InstRef) : Prop :=
  ∃ x, g.insts.get? i = some x ∧ g.instType x.kind = .ok (x.type, g.types)

/-- `h` is `g` after the pass has been over `done`. -/
structure Swept (g : Graph) (done : List InstRef) (h : Graph) : Prop where
  types : g.types.Extends h.types
  same : ∃ type : InstRef → TypeRef,
    h = { g with
      types := h.types
      insts := g.insts.mapRefs fun i x => if i ∈ done then { x with type := type i } else x }
  settled : ∀ i ∈ done, h.Settled i

variable {g g' h h' : Graph} {f : FuncRef} {i k : InstRef} {v : Value} {changed : Bool}
  {l done : List InstRef}

theorem nodup_funcInsts (hg : g.Linked) (f : FuncRef) : (g.funcInsts f).Nodup :=
  hg.insts.nodup_flatMap (hg.blocks.nodup f)

theorem not_sublist_of_mem {α : Type} {before after : List α} {a b : α}
    (hnd : (before ++ a :: after).Nodup) (hb : b ∈ before ++ [a]) :
    ¬[a, b].Sublist (before ++ a :: after) := by
  intro hsub
  have hpair : [a, b].Nodup := hnd.sublist hsub
  have hne : b ≠ a := by
    rintro rfl
    simp at hpair
  have hbefore : b ∈ before := by simpa [hne] using hb
  obtain ⟨-, hafter, hapart⟩ := List.nodup_append.mp hnd
  obtain ⟨first, second, hsplit, hfirst, hsecond⟩ := List.sublist_append_iff.mp hsub
  cases first with
  | nil =>
    obtain rfl : [a, b] = second := hsplit
    have hlater : b ∈ a :: after := hsecond.subset (by simp)
    exact hapart b hbefore b hlater rfl
  | cons c first =>
    obtain rfl : a = c := (List.cons.inj hsplit).1
    exact hapart a (hfirst.subset List.mem_cons_self) a List.mem_cons_self rfl

section Step

theorem valueType_refreshType (hr : g.refreshType i = .ok (changed, g')) (hv : v ≠ .inst i) :
    g'.valueType v = g.valueType v := by
  obtain ⟨inst, type, types, -, -, rfl⟩ := refreshType_eq_ok hr
  cases v with
  | inst k =>
    have hk : k ≠ i := fun hk => hv (congrArg Value.inst hk)
    have hsame : (g.insts.mapRefs (onlyAt i fun x => { x with type })).get k = g.insts.get k := by
      rw [Arena.get, Arena.get, Arena.get?_mapRefs, Arena.size_mapRefs]
      cases g.insts.get? k <;> simp [onlyAt, hk]
    rw [valueType, valueType, hsame]
  | _ => rfl

theorem settled_of_refreshType (hr : g.refreshType i = .ok (changed, g'))
    (hself : ∀ x, g.insts.get? i = some x → .inst i ∉ x.kind.typeOperands) : g'.Settled i := by
  have hvalues := fun v => valueType_refreshType (v := v) hr
  obtain ⟨x, type, types, hx, htype, rfl⟩ := refreshType_eq_ok hr
  refine ⟨{ x with type }, ?_, ?_⟩
  · simp [hx, onlyAt]
  · refine instType_again (.refl _) (fun v hv r hr => (hvalues v ?_).trans hr) htype
    rintro rfl
    exact hself x hx hv

theorem Settled.refreshType (hk : g.Settled k) (hr : g.refreshType i = .ok (changed, g'))
    (hki : k ≠ i) (hno : ∀ x, g.insts.get? k = some x → .inst i ∉ x.kind.typeOperands) :
    g'.Settled k := by
  have hvalues := fun v => valueType_refreshType (v := v) hr
  obtain ⟨x, hx, hxtype⟩ := hk
  obtain ⟨y, type, types, hy, htype, rfl⟩ := refreshType_eq_ok hr
  refine ⟨x, ?_, ?_⟩
  · simp [hx, onlyAt, hki]
  · refine instType_again (instType_extends htype) (fun v hv r hr => (hvalues v ?_).trans hr) hxtype
    rintro rfl
    exact hno x hx hv

theorem Settled.refreshType_eq (hi : g.Settled i) : g.refreshType i = .ok (false, g) := by
  obtain ⟨x, hx, hxtype⟩ := hi
  have hsame : g.insts.set i x = g.insts := Arena.set_eq_self hx
  refine bind_eq_ok_iff.mpr ⟨x, Arena.get_eq_ok_iff.mpr hx, ?_⟩
  refine bind_eq_ok_iff.mpr ⟨(x.type, g.types), hxtype, ?_⟩
  simp [pure, Except.pure, hsame]

end Step

section Pass

theorem Swept.exists_of_get? {x : Inst} (hs : g.Swept done h) (hx : h.insts.get? k = some x) :
    ∃ y, g.insts.get? k = some y ∧ y.kind = x.kind := by
  obtain ⟨type, hsame⟩ := hs.same
  rw [hsame, Arena.get?_mapRefs] at hx
  obtain ⟨y, hy, rfl⟩ := Option.map_eq_some_iff.mp hx
  refine ⟨y, hy, ?_⟩
  split <;> rfl

theorem Swept.refreshType (hs : g.Swept done h) (hi : i ∉ done)
    (hno : ∀ k ∈ done ++ [i], ∀ x, g.insts.get? k = some x → .inst i ∉ x.kind.typeOperands)
    (hr : h.refreshType i = .ok (changed, h')) : g.Swept (done ++ [i]) h' := by
  have hnoh : ∀ k ∈ done ++ [i], ∀ x, h.insts.get? k = some x →
      .inst i ∉ x.kind.typeOperands := by
    intro k hk x hx
    obtain ⟨y, hy, hkind⟩ := hs.exists_of_get? hx
    rw [← hkind]
    exact hno k hk y hy
  have hsettled : ∀ k ∈ done ++ [i], h'.Settled k := by
    intro k hk
    rcases List.mem_append.mp hk with hdone | hlast
    · have hki : k ≠ i := fun hki => hi (hki ▸ hdone)
      exact (hs.settled k hdone).refreshType hr hki (hnoh k hk)
    · obtain rfl := List.mem_singleton.mp hlast
      exact settled_of_refreshType hr (hnoh k hk)
  obtain ⟨type, hsame⟩ := hs.same
  obtain ⟨x, new, types, hx, htype, rfl⟩ := refreshType_eq_ok hr
  refine ⟨hs.types.trans (instType_extends htype), ⟨Function.update type i new, ?_⟩, hsettled⟩
  rw [hsame]
  simp only [mk.injEq, true_and, and_true, Arena.mapRefs_mapRefs]
  refine Arena.mapRefs_congr fun k y hy => ?_
  by_cases hk : k = i
  · subst hk
    simp [onlyAt, hi]
  · by_cases hdone : k ∈ done <;> simp [onlyAt, hk, hdone]

theorem Swept.start (g : Graph) : g.Swept [] g where
  types := .refl _
  same := by
    have hself : g.insts.mapRefs (fun i x => if i ∈ [] then { x with type := .void } else x) =
        g.insts := Arena.mapRefs_eq_self fun _ _ _ => by simp
    exact ⟨fun _ => .void, by rw [hself]⟩
  settled i hi := absurd hi List.not_mem_nil

theorem Swept.foldlM (hs : g.Swept done h) (hnd : (done ++ l).Nodup)
    (horder : ∀ k ∈ done ++ l, ∀ x, g.insts.get? k = some x → ∀ j ∈ done ++ l,
      .inst j ∈ x.kind.typeOperands → [j, k].Sublist (done ++ l))
    (hrun : l.foldlM (fun g i => return (← g.refreshType i).2) h = .ok h') :
    g.Swept (done ++ l) h' := by
  induction l generalizing done h with
  | nil =>
    obtain rfl := pure_eq_ok_iff.mp hrun
    rwa [List.append_nil]
  | cons i l ih =>
    rw [List.foldlM_cons, bind_eq_ok_iff] at hrun
    obtain ⟨mid, hmid, hrun⟩ := hrun
    obtain ⟨changed, hr⟩ := return_snd_eq_ok_iff.mp hmid
    have hi : i ∉ done := fun hi =>
      (List.nodup_append.mp hnd).2.2 i hi i List.mem_cons_self rfl
    -- what has been computed does not look at what is computed next, nor does that at itself
    have hno : ∀ k ∈ done ++ [i], ∀ x, g.insts.get? k = some x →
        .inst i ∉ x.kind.typeOperands := by
      intro k hk x hx hmem
      have hkl : k ∈ done ++ i :: l := by
        rw [List.append_cons]
        exact List.mem_append_left l hk
      have hil : i ∈ done ++ i :: l := List.mem_append_right done List.mem_cons_self
      exact not_sublist_of_mem hnd hk (horder k hkl x hx i hil hmem)
    rw [List.append_cons] at hnd horder ⊢
    exact ih (hs.refreshType hi hno hr) hnd horder hrun

theorem foldlM_refreshType_of_settled (hl : ∀ i ∈ l, g.Settled i) :
    l.foldlM (fun g i => return (← g.refreshType i).2) g = .ok g := by
  induction l with
  | nil => rfl
  | cons i l ih =>
    have hi : g.refreshType i = .ok (false, g) := (hl i List.mem_cons_self).refreshType_eq
    rw [List.foldlM_cons, hi]
    exact ih fun k hk => hl k (List.mem_cons_of_mem i hk)

theorem flatMap_insts_of_body {func : Func} {body : List (BlockRef × Block)}
    (hb : g.body func = .ok body) :
    (body.flatMap fun p => p.2.insts) = func.blocks.flatMap (g.blocks.members Block.insts) := by
  unfold Graph.body at hb
  generalize func.blocks = blocks at hb ⊢
  induction blocks generalizing body with
  | nil =>
    obtain rfl := pure_eq_ok_iff.mp hb
    rfl
  | cons b blocks ih =>
    simp only [List.mapM_cons, bind_eq_ok_iff, pure_eq_ok_iff, Arena.get_eq_ok_iff] at hb
    obtain ⟨_, ⟨x, hx, rfl⟩, rest, hrest, rfl⟩ := hb
    rw [List.flatMap_cons, List.flatMap_cons, Arena.members_of_get? hx, ih hrest]

theorem refreshTypes_eq_ok_iff :
    g.refreshTypes f = .ok g' ↔
      (∃ func body, g.funcs.get? f = some func ∧ g.body func = .ok body) ∧
        (g.funcInsts f).foldlM (fun g i => return (← g.refreshType i).2) g = .ok g' := by
  simp only [refreshTypes, bind_eq_ok_iff, Arena.get_eq_ok_iff]
  constructor
  · rintro ⟨func, hf, body, hb, hrun⟩
    refine ⟨⟨func, body, hf, hb⟩, ?_⟩
    rw [funcInsts, Arena.members_of_get? hf, ← flatMap_insts_of_body hb]
    exact hrun
  · rintro ⟨⟨func, body, hf, hb⟩, hrun⟩
    refine ⟨func, hf, body, hb, ?_⟩
    rw [funcInsts, Arena.members_of_get? hf, ← flatMap_insts_of_body hb] at hrun
    exact hrun

end Pass

/-- When the operands that decide on types come before their users, one pass makes every instruction
of the function have the type that its kind gives in the graph afterwards, and a second pass changes
nothing. Besides those types and what the table was asked for, the graph is as it was. -/
theorem refreshTypes_settles {edits : List Edit} (hrun : Graph.empty.run edits = .ok g)
    (horder : g.TypesInOrder f) (hr : g.refreshTypes f = .ok g') :
    (∀ i ∈ g.funcInsts f, ∃ x, g'.insts.get? i = some x ∧
      g'.instType x.kind = .ok (x.type, g'.types)) ∧
    g'.refreshTypes f = .ok g' ∧
    (∃ asked, g'.types = g.types.internAll asked) ∧
    ∃ type : InstRef → TypeRef, g' = { g with
      types := g'.types
      insts := g.insts.mapRefs fun i x =>
        if i ∈ g.funcInsts f then { x with type := type i } else x } := by
  have hlinked : g.Linked := Linked.empty.run hrun
  obtain ⟨⟨func, body, hf, hb⟩, hfold⟩ := refreshTypes_eq_ok_iff.mp hr
  have hswept : g.Swept (g.funcInsts f) g' :=
    (Swept.start g).foldlM (nodup_funcInsts hlinked f) horder hfold
  obtain ⟨type, hsame⟩ := hswept.same
  refine ⟨hswept.settled, ?_, hswept.types, type, hsame⟩
  have hfuncs : g'.funcs = g.funcs := by rw [hsame]
  have hblocks : g'.blocks = g.blocks := by rw [hsame]
  have hlist : g'.funcInsts f = g.funcInsts f := by rw [funcInsts, funcInsts, hfuncs, hblocks]
  have hbody : g'.body func = .ok body := by rw [Graph.body, hblocks, ← hb, Graph.body]
  refine refreshTypes_eq_ok_iff.mpr ⟨⟨func, body, by rw [hfuncs, hf], hbody⟩, ?_⟩
  rw [hlist]
  exact foldlM_refreshType_of_settled hswept.settled

/-- A sum whose operands are widened after a product and an exchange have been made of it. -/
def widenRun : List Edit :=
  [.intern (.int 32), .intern (.int 64), .intern (.func ⟨5⟩ [⟨5⟩, ⟨6⟩] false),
    .addParam ⟨5⟩ .anonymous, .addParam ⟨6⟩ .anonymous, .addBlock .anonymous,
    .addFunc ⟨"f", ⟨7⟩, [⟨0⟩, ⟨1⟩], [⟨0⟩], none, none, none, []⟩,
    .addInst (.binary .add (.param ⟨0⟩) (.param ⟨0⟩)) .anonymous,
    .addInst (.binary .mul (.inst ⟨0⟩) (.inst ⟨0⟩)) .anonymous,
    .addInst (.cmpxchg (.param ⟨1⟩) (.inst ⟨1⟩) (.inst ⟨0⟩) .monotonic .monotonic) .anonymous,
    .pushInst ⟨0⟩ ⟨0⟩, .pushInst ⟨0⟩ ⟨1⟩, .pushInst ⟨0⟩ ⟨2⟩,
    .replaceUse (.inst ⟨0⟩ .x) (.param ⟨1⟩), .replaceUse (.inst ⟨0⟩ .y) (.param ⟨1⟩)]

def widenedGraph : Graph :=
  match empty.run widenRun with
  | .ok g => g
  | .error _ => empty

/-- The widened type goes from the sum to the product and into a new type for the exchange. -/
theorem widenedGraph_refreshTypes :
    empty.run widenRun = .ok widenedGraph ∧ widenedGraph.TypesInOrder ⟨0⟩ ∧
      widenedGraph.insts.view Inst.type ⟨2⟩ = some ⟨9⟩ ∧
      ∃ g', widenedGraph.refreshTypes ⟨0⟩ = .ok g' ∧ g'.refreshTypes ⟨0⟩ = .ok g' ∧
        (∃ x, g'.insts.get? ⟨2⟩ = some x ∧ g'.instType x.kind = .ok (x.type, g'.types)) ∧
        g'.insts.view Inst.type ⟨2⟩ = some ⟨10⟩ ∧
        g'.types.get? ⟨10⟩ = some (.struct [⟨6⟩, ⟨8⟩] false) := by
  have hrun : empty.run widenRun = .ok widenedGraph := by rfl
  have hinsts : widenedGraph.funcInsts ⟨0⟩ = [⟨0⟩, ⟨1⟩, ⟨2⟩] := by rfl
  have hkinds : [⟨0⟩, ⟨1⟩, ⟨2⟩].map (widenedGraph.insts.view fun x => x.kind.typeOperands) =
      [some [.param ⟨1⟩], some [.inst ⟨0⟩], some [.inst ⟨1⟩]] := by rfl
  simp only [List.map_cons, List.map_nil, List.cons.injEq, and_true] at hkinds
  obtain ⟨hsum, hproduct, hexchange⟩ := hkinds
  have horder : widenedGraph.TypesInOrder ⟨0⟩ := by
    intro i hi x hx j hj hmem
    rw [hinsts] at hi ⊢
    simp only [List.mem_cons, List.not_mem_nil, or_false] at hi
    rcases hi with rfl | rfl | rfl
    · have hoperands : x.kind.typeOperands = [.param ⟨1⟩] := by
        simpa [Arena.view, hx] using hsum
      simp [hoperands] at hmem
    · have hoperands : x.kind.typeOperands = [.inst ⟨0⟩] := by
        simpa [Arena.view, hx] using hproduct
      obtain rfl : j = ⟨0⟩ := by simpa [hoperands] using hmem
      decide
    · have hoperands : x.kind.typeOperands = [.inst ⟨1⟩] := by
        simpa [Arena.view, hx] using hexchange
      obtain rfl : j = ⟨1⟩ := by simpa [hoperands] using hmem
      decide
  have hrefresh : ∃ g', widenedGraph.refreshTypes ⟨0⟩ = .ok g' ∧
      g'.insts.view Inst.type ⟨2⟩ = some ⟨10⟩ ∧
      g'.types.get? ⟨10⟩ = some (.struct [⟨6⟩, ⟨8⟩] false) := ⟨_, rfl, rfl, rfl⟩
  obtain ⟨g', hr, htype, hnew⟩ := hrefresh
  obtain ⟨hsettled, hagain, -⟩ := refreshTypes_settles hrun horder hr
  have hlast : ⟨2⟩ ∈ widenedGraph.funcInsts ⟨0⟩ := by
    rw [hinsts]
    decide
  exact ⟨hrun, horder, by rfl, g', hr, hagain, hsettled ⟨2⟩ hlast, htype, hnew⟩

end IrGraph.Graph
