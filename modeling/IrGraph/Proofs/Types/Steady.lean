import IrGraph.Proofs.Numbering.Layout
import IrGraph.Proofs.Types.Refresh

/-! Runs that rewrite no kind and have each constant before what is made of it. What such a run
stores as a type is what computing it again gives, and the table has nothing to add. -/

namespace IrGraph

namespace Edit

/-- Whether an edit gives an instruction or a terminator another kind or another operand. -/
def rewritesKind : Edit → Bool
  | replaceUse .. | setInstKind .. | setTermKind .. => true
  | _ => false

/-- The constants among the operands of a new instruction or constant. -/
def constOperands : Edit → List ConstRef
  | addInst kind _ => kind.operands.filterMap (·.2.const?)
  | addConst data => data.parts.filterMap Value.const?
  | _ => []

end Edit

theorem Instruction.mem_operands_of_mem_typeOperands {kind : Instruction} {v : Value}
    (h : v ∈ kind.typeOperands) : ∃ s, (s, v) ∈ kind.operands := by
  cases kind <;> simp only [typeOperands, List.mem_cons, List.not_mem_nil, or_false] at h
  case shuffleVector =>
    rcases h with rfl | rfl
    · exact ⟨.x, by simp [operands]⟩
    · exact ⟨.mask, by simp [operands]⟩
  case cmpxchg => exact ⟨.expected, by simp [operands, h]⟩
  case select => exact ⟨.x, by simp [operands, h]⟩
  all_goals simp [operands, h]

namespace Graph

/-- What a run makes of the empty graph when no edit rewrites a kind and constants are there before
what is made of them. -/
inductive Steady : Graph → Prop
  | empty : Steady .empty
  | edit {g g' : Graph} (e : Edit) (hg : Steady g) (hkind : e.rewritesKind = false)
      (hconsts : ∀ c ∈ e.constOperands, (g.consts.get? c).isSome) (h : e.apply g = .ok g') : Steady g'

def Present (g : Graph) (v : Value) : Prop :=
  ∀ c, v.const? = some c → (g.consts.get? c).isSome

structure InstUpToDate (g : Graph) (kind : Instruction) (type : TypeRef) : Prop where
  present : ∀ v ∈ kind.typeOperands, g.Present v
  type_eq : g.instType kind = .ok (type, g.types)

structure ConstUpToDate (g : Graph) (x : StoredConstant) : Prop where
  present : ∀ v ∈ x.data.parts, g.Present v
  type_eq : g.constType x.data = .ok (x.type, g.types)

/-- Every stored type is the one that is computed from what is stored with it. -/
structure UpToDate (g : Graph) : Prop where
  insts : ∀ i s, g.insts.view (fun x => (x.kind, x.type)) i = some s → g.InstUpToDate s.1 s.2
  consts : ∀ c x, g.consts.view id c = some x → g.ConstUpToDate x

/-- As far as types are concerned, `g'` is `g` with some instructions and constants added. -/
structure Grown (insts : List (Instruction × TypeRef)) (consts : List StoredConstant)
    (g g' : Graph) : Prop where
  types : g.types.Extends g'.types
  params : g.params.Grows Param.type (fun _ => True) g'.params
  insts : g.insts.Grows (fun x => (x.kind, x.type)) (· ∈ insts) g'.insts
  terms : g.terms.Grows Term.type (fun _ => True) g'.terms
  consts : g.consts.Grows id (· ∈ consts) g'.consts

variable {g g' : Graph} {insts : List (Instruction × TypeRef)} {consts : List StoredConstant}
  {v : Value} {r type : TypeRef} {types : TypeTable} {kind : Instruction} {data : Constant}

section Grown

theorem Grown.present (h : Grown insts consts g g') (hv : g.Present v) : g'.Present v := by
  intro c hc
  obtain ⟨x, hx⟩ := Option.isSome_iff_exists.mp (hv c hc)
  have hkept := h.consts.kept c x (by simp [Arena.view, hx])
  obtain ⟨y, hy, -⟩ := Arena.view_eq_some_iff.mp hkept
  exact Option.isSome_iff_exists.mpr ⟨y, hy⟩

theorem Grown.valueType (h : Grown insts consts g g') (hv : g.Present v)
    (ht : g.valueType v = .ok r) : g'.valueType v = .ok r := by
  cases v with
  | const c =>
    obtain ⟨x, hx⟩ := Option.isSome_iff_exists.mp (hv c rfl)
    have hkept := h.consts.kept c x (by simp [Arena.view, hx])
    obtain ⟨y, hy, rfl⟩ := Arena.view_eq_some_iff.mp hkept
    rw [Graph.valueType, hx] at ht
    rwa [Graph.valueType, hy]
  | param p =>
    simp only [Graph.valueType, bind_eq_ok_iff, pure_eq_ok_iff, Arena.get_eq_ok_iff] at ht ⊢
    exact Arena.view_eq_some_iff.mp (h.params.kept p r (Arena.view_eq_some_iff.mpr ht))
  | inst i =>
    simp only [Graph.valueType, bind_eq_ok_iff, pure_eq_ok_iff, Arena.get_eq_ok_iff] at ht ⊢
    exact Arena.view_eq_some_iff.mp (h.insts.kept_part Prod.snd (Arena.view_eq_some_iff.mpr ht))
  | term t =>
    simp only [Graph.valueType, bind_eq_ok_iff, pure_eq_ok_iff, Arena.get_eq_ok_iff] at ht ⊢
    exact Arena.view_eq_some_iff.mp (h.terms.kept t r (Arena.view_eq_some_iff.mpr ht))
  | _ => exact ht

theorem Grown.instUpToDate (h : Grown insts consts g g')
    (hpresent : ∀ v ∈ kind.typeOperands, g.Present v)
    (ht : g.instType kind = .ok (type, types)) (htypes : types.Extends g'.types) :
    g'.InstUpToDate kind type where
  present v hv := h.present (hpresent v hv)
  type_eq := instType_again htypes (fun v hv _ hr => h.valueType (hpresent v hv) hr) ht

theorem Grown.constUpToDate (h : Grown insts consts g g')
    (hpresent : ∀ v ∈ data.parts, g.Present v)
    (ht : g.constType data = .ok (type, types)) (htypes : types.Extends g'.types) :
    g'.ConstUpToDate ⟨data, type⟩ where
  present v hv := h.present (hpresent v hv)
  type_eq := constType_again htypes (fun v hv _ hr => h.valueType (hpresent v hv) hr) ht

theorem UpToDate.of_grown (hg : g.UpToDate) (h : Grown insts consts g g')
    (hinsts : ∀ s ∈ insts, g'.InstUpToDate s.1 s.2) (hconsts : ∀ x ∈ consts, g'.ConstUpToDate x) :
    g'.UpToDate where
  insts i s hs := by
    cases hold : g.insts.view (fun x => (x.kind, x.type)) i with
    | none => exact hinsts s (h.insts.added i s hold hs)
    | some s' =>
      obtain rfl := Option.some.inj ((h.insts.kept i s' hold).symm.trans hs)
      have hs' := hg.insts i s' hold
      exact h.instUpToDate hs'.present hs'.type_eq h.types
  consts c x hx := by
    cases hold : g.consts.view id c with
    | none => exact hconsts x (h.consts.added c x hold hx)
    | some x' =>
      obtain rfl := Option.some.inj ((h.consts.kept c x' hold).symm.trans hx)
      have hx' := hg.consts c x' hold
      exact h.constUpToDate hx'.present hx'.type_eq h.types

theorem UpToDate.of_grown_nil (hg : g.UpToDate) (h : Grown [] [] g g') : g'.UpToDate :=
  hg.of_grown h (fun _ hs => absurd hs List.not_mem_nil) fun _ hx => absurd hx List.not_mem_nil

end Grown

namespace UpToDate

theorem empty : Graph.empty.UpToDate where
  insts i s hs := by simp [Graph.empty, Arena.empty, Arena.view, Arena.get?] at hs
  consts c x hx := by simp [Graph.empty, Arena.empty, Arena.view, Arena.get?] at hx

section Edits

variable {i : InstRef} {t : TermRef} {c : ConstRef} {ident : Ident}

theorem intern (h : g.UpToDate) (ty : IrType) : (g.intern ty).2.UpToDate :=
  h.of_grown_nil ⟨.intern rfl, .refl _, .refl _, .refl _, .refl _⟩

theorem addParam (h : g.UpToDate) : (g.addParam type ident).2.UpToDate :=
  h.of_grown_nil ⟨.refl _, .push trivial, .refl _, .refl _, .refl _⟩

theorem addTerm {kind : Terminator} (h : g.UpToDate) (ha : g.addTerm kind ident = .ok (t, g')) :
    g'.UpToDate := by
  obtain ⟨type, -, rfl⟩ := addTerm_eq_ok ha
  exact h.of_grown_nil ⟨.refl _, .refl _, .refl _, .push trivial, .refl _⟩

theorem addInst (h : g.UpToDate) (hpresent : ∀ v ∈ kind.typeOperands, g.Present v)
    (ha : g.addInst kind ident = .ok (i, g')) : g'.UpToDate := by
  obtain ⟨type, types, ht, rfl⟩ := addInst_eq_ok ha
  have hgrown : Grown [(kind, type)] [] g
      { g with types, insts := g.insts.push ⟨kind, type, ident, none⟩ } :=
    ⟨instType_extends ht, .refl _, .push List.mem_cons_self, .refl _, .refl _⟩
  refine h.of_grown hgrown (fun s hs => ?_) fun _ hx => absurd hx List.not_mem_nil
  obtain rfl := List.mem_singleton.mp hs
  exact hgrown.instUpToDate hpresent ht (.refl _)

theorem addConst (h : g.UpToDate) (hpresent : ∀ v ∈ data.parts, g.Present v)
    (ha : g.addConst data = .ok (c, g')) : g'.UpToDate := by
  obtain ⟨type, types, ht, rfl⟩ := addConst_eq_ok ha
  have hgrown : Grown [] [⟨data, type⟩] g { g with types, consts := g.consts.push ⟨data, type⟩ } :=
    ⟨constType_extends ht, .refl _, .refl _, .refl _, .push List.mem_cons_self⟩
  refine h.of_grown hgrown (fun _ hs => absurd hs List.not_mem_nil) fun x hx => ?_
  obtain rfl := List.mem_singleton.mp hx
  exact hgrown.constUpToDate hpresent ht (.refl _)

theorem addLeaf (h : g.UpToDate) (hleaf : data.parts = []) (ha : g.addConst data = .ok (c, g')) :
    g'.UpToDate :=
  h.addConst (by simp [hleaf]) ha

theorem addBytes {bytes : List UInt8} (h : g.UpToDate) (ha : g.addBytes bytes = .ok (c, g')) :
    g'.UpToDate :=
  ((h.intern (.int 8)).intern _).addLeaf rfl ha

theorem simplify {c' : ConstRef} (h : g.UpToDate) (hs : g.simplify c = .ok (c', g')) :
    g'.UpToDate :=
  simplify_induction (fun _ _ _ _ _ _ h _ _ hparts ha => h.addLeaf hparts ha) h hs

theorem settled {x : Inst} (h : g.UpToDate) (hi : g.insts.get? i = some x) : g.Settled i :=
  ⟨x, hi, (h.insts i (x.kind, x.type) (Arena.view_eq_some_iff.mpr ⟨x, hi, rfl⟩)).type_eq⟩

theorem refreshType {changed : Bool} (h : g.UpToDate) (hr : g.refreshType i = .ok (changed, g')) :
    changed = false ∧ g' = g := by
  obtain ⟨x, _, _, hi, -, -⟩ := refreshType_eq_ok hr
  have hsame := (h.settled hi).refreshType_eq.symm.trans hr
  cases hsame
  exact ⟨rfl, rfl⟩

theorem refreshTypes {f : FuncRef} (h : g.UpToDate) (hr : g.refreshTypes f = .ok g') : g' = g := by
  refine refreshTypes_induction (P := (· = g)) ?_ rfl hr
  rintro i _ g' changed rfl hi
  exact (h.refreshType hi).2

theorem mapIdents (h : g.UpToDate) (φ : Value → Ident → Ident) : (g.mapIdents φ).UpToDate := by
  refine h.of_grown_nil ⟨.refl _, ?_, ?_, ?_, .refl _⟩
  all_goals
    simp only [Graph.mapIdents]
    apply Arena.Grows.mapRefs
    exact fun _ _ => rfl

theorem moveInst (h : g.UpToDate) (owner : Inst → Option BlockRef) (blocks : Arena .block Block) :
    UpToDate { g with
      blocks, insts := g.insts.mapRefs (onlyAt i fun x => { x with owner := owner x }) } := by
  refine h.of_grown_nil ⟨.refl _, .refl _, .onlyAt ?_, .refl _, .refl _⟩
  exact fun _ => rfl

theorem addFunc {func : Func} {f : FuncRef} (h : g.UpToDate) (hf : g.addFunc func = .ok (f, g')) :
    g'.UpToDate := by
  obtain ⟨-, -, -, rfl⟩ := addFunc_eq_ok hf
  refine h.of_grown_nil ⟨.refl _, ?_, .refl _, .refl _, .refl _⟩
  dsimp only
  apply Arena.Grows.mapRefs
  intro p x
  split <;> rfl

theorem setTerm {b : BlockRef} (h : g.UpToDate) (ht : g.setTerm b t = .ok g') : g'.UpToDate := by
  obtain ⟨_, _, -, -, -, rfl⟩ := setTerm_eq_ok ht
  refine h.of_grown_nil ⟨.refl _, .refl _, .refl _, ?_, .refl _⟩
  dsimp only
  apply Arena.Grows.mapRefs
  intro r x
  split
  · rfl
  · split <;> rfl

theorem present_of_mem {vs : List Value}
    (hconsts : ∀ c ∈ vs.filterMap Value.const?, (g.consts.get? c).isSome) (hv : v ∈ vs) :
    g.Present v :=
  fun c hc => hconsts c (List.mem_filterMap.mpr ⟨v, hv, hc⟩)

theorem apply {e : Edit} (h : g.UpToDate) (hkind : e.rewritesKind = false)
    (hconsts : ∀ c ∈ e.constOperands, (g.consts.get? c).isSome) (he : e.apply g = .ok g') :
    g'.UpToDate := by
  cases e with
  | replaceUse | setInstKind | setTermKind => cases hkind
  | addModule | addGlobal | addAlias | addIFunc | addUseListOrder | addUseListOrderBlock
  | addMetadata | addNamedMetadata | addBlock =>
    cases he
    exact h.of_grown_nil ⟨.refl _, .refl _, .refl _, .refl _, .refl _⟩
  | intern type =>
    cases he
    exact h.intern type
  | addParam =>
    cases he
    exact h.addParam
  | addInst kind =>
    obtain ⟨i, he⟩ := return_snd_eq_ok_iff.mp he
    refine h.addInst (fun v hv => ?_) he
    obtain ⟨s, hs⟩ := Instruction.mem_operands_of_mem_typeOperands hv
    exact fun c hc => hconsts c (List.mem_filterMap.mpr ⟨(s, v), hs, hc⟩)
  | addComment text =>
    obtain ⟨i, he⟩ := return_snd_eq_ok_iff.mp he
    exact h.addInst (fun v hv => absurd hv List.not_mem_nil) he
  | addTerm =>
    obtain ⟨t, he⟩ := return_snd_eq_ok_iff.mp he
    exact h.addTerm he
  | addConst data =>
    obtain ⟨c, he⟩ := return_snd_eq_ok_iff.mp he
    exact h.addConst (fun v hv => present_of_mem hconsts hv) he
  | addInt =>
    obtain ⟨c, he⟩ := return_snd_eq_ok_iff.mp he
    exact h.addLeaf rfl he
  | addZero =>
    obtain ⟨c, he⟩ := return_snd_eq_ok_iff.mp he
    obtain ⟨data, -, hparts, he⟩ := addZero_eq_ok he
    exact h.addLeaf hparts he
  | addCString | addPascalString =>
    obtain ⟨c, he⟩ := return_snd_eq_ok_iff.mp he
    exact h.addBytes he
  | refreshType =>
    obtain ⟨changed, he⟩ := return_snd_eq_ok_iff.mp he
    exact (h.refreshType he).2 ▸ h
  | refreshTypes => exact h.refreshTypes he ▸ h
  | simplify =>
    obtain ⟨c, he⟩ := return_snd_eq_ok_iff.mp he
    exact h.simplify he
  | rename v name =>
    rw [modifyIdent_eq_ok (f := (·.rename name)) he]
    exact h.mapIdents _
  | assignIds =>
    obtain ⟨e, he⟩ := return_snd_eq_ok_iff.mp he
    obtain ⟨φ, rfl⟩ := assignIds_eq_mapIdents he
    exact h.mapIdents φ
  | resetNames =>
    obtain ⟨φ, rfl⟩ := resetNames_eq_mapIdents he
    exact h.mapIdents φ
  | setMetadata =>
    obtain ⟨metadata, rfl⟩ := setMetadata_eq_ok he
    exact h.of_grown_nil ⟨.refl _, .refl _, .refl _, .refl _, .refl _⟩
  | addFunc =>
    obtain ⟨f, he⟩ := return_snd_eq_ok_iff.mp he
    exact h.addFunc he
  | pushBlock =>
    obtain ⟨_, _, -, -, -, rfl⟩ := pushBlock_eq_ok he
    exact h.of_grown_nil ⟨.refl _, .refl _, .refl _, .refl _, .refl _⟩
  | pushInst =>
    obtain ⟨_, _, -, -, -, rfl⟩ := pushInst_eq_ok he
    exact h.moveInst _ _
  | insertInstBefore =>
    obtain ⟨_, _, _, -, -, -, -, rfl⟩ := insertInstBefore_eq_ok he
    exact h.moveInst _ _
  | removeInst =>
    obtain ⟨_, _, -, -, rfl⟩ := removeInst_eq_ok he
    exact h.moveInst _ _
  | setTerm => exact h.setTerm he

end Edits

end UpToDate

theorem Steady.upToDate (h : g.Steady) : g.UpToDate := by
  induction h with
  | empty => exact .empty
  | edit e _ hkind hconsts he ih => exact ih.apply hkind hconsts he

theorem Steady.linked (h : g.Steady) : g.Linked := by
  induction h with
  | empty => exact .empty
  | edit e _ _ _ he ih => exact ih.apply he

section Function

variable {f : FuncRef} {func : Func}

theorem exists_of_mem_funcInsts {i : InstRef} (h : g.Linked) (hi : i ∈ g.funcInsts f) :
    ∃ x, g.insts.get? i = some x := by
  obtain ⟨b, -, hb⟩ := List.mem_flatMap.mp hi
  rw [h.insts.mem_iff, Arena.link_eq_some_iff] at hb
  exact hb.imp fun _ hx => hx.1

theorem UpToDate.refreshTypes_eq (h : g.UpToDate) (hlinked : g.Linked)
    (hf : g.funcs.get? f = some func) : g.refreshTypes f = .ok g := by
  obtain ⟨body, hbody, -⟩ := exists_body func.blocks fun b => exists_of_mem_blocks hlinked hf
  refine refreshTypes_eq_ok_iff.mpr ⟨⟨func, body, hf, hbody⟩, ?_⟩
  refine foldlM_refreshType_of_settled fun i hi => ?_
  obtain ⟨x, hx⟩ := exists_of_mem_funcInsts hlinked hi
  exact h.settled hx

end Function

/-- Whether each edit of a run goes through, rewrites no kind and takes only constants that are
there. -/
def steadyRun (g : Graph) : List Edit → Bool
  | [] => true
  | e :: edits =>
    !e.rewritesKind && decide (∀ c ∈ e.constOperands, (g.consts.get? c).isSome) &&
      match e.apply g with
      | .ok g => g.steadyRun edits
      | .error _ => false

theorem Steady.of_steadyRun {edits : List Edit} (hg : g.Steady) (hsteady : g.steadyRun edits)
    (h : g.run edits = .ok g') : g'.Steady := by
  induction edits generalizing g with
  | nil =>
    cases h
    exact hg
  | cons e edits ih =>
    obtain ⟨mid, he, hrest⟩ := run_cons_eq_ok_iff.mp h
    rw [steadyRun, he, Bool.and_eq_true, Bool.and_eq_true, Bool.not_eq_true',
      decide_eq_true_iff] at hsteady
    exact ih (.edit e hg hsteady.1.1 hsteady.1.2 he) hsteady.2 hrest

/-- In a graph that a steady run makes, each constant has the type that its data gives, computing
the type of an instruction again changes nothing, not even the table, and neither does computing the
types of a function again. -/
theorem steady_types_current (h : g.Steady) :
    (∀ c x, g.consts.get? c = some x → g.constType x.data = .ok (x.type, g.types)) ∧
    (∀ i x, g.insts.get? i = some x → g.refreshType i = .ok (false, g)) ∧
    ∀ f func, g.funcs.get? f = some func → g.refreshTypes f = .ok g := by
  have hcurrent : g.UpToDate := h.upToDate
  refine ⟨fun c x hc => ?_, fun i x hi => ?_, fun f func hf => ?_⟩
  · exact (hcurrent.consts c x (Arena.view_eq_some_iff.mpr ⟨x, hc, rfl⟩)).type_eq
  · exact (hcurrent.settled hi).refreshType_eq
  · exact hcurrent.refreshTypes_eq h.linked hf

/-- Comparisons of vectors and an exchange, which ask for types of their own, and a sum that is
folded. -/
def steadyEdits : List Edit :=
  [.intern (.int 32), .intern (.vector 2 ⟨5⟩ false), .intern (.func ⟨0⟩ [⟨6⟩] false),
    .addInt ⟨5⟩ 3, .addConst (.vector ⟨6⟩ [.const ⟨0⟩, .const ⟨0⟩]),
    .addConst (.expr (.icmp .eq (.const ⟨1⟩) (.const ⟨1⟩))),
    .addConst (.expr (.binary .add (.const ⟨0⟩) (.const ⟨0⟩))), .simplify ⟨3⟩,
    .addParam ⟨6⟩ .anonymous, .addBlock .anonymous,
    .addFunc ⟨"f", ⟨7⟩, [⟨0⟩], [⟨0⟩], none, none, none, []⟩,
    .addInst (.icmp .slt (.param ⟨0⟩) (.const ⟨1⟩)) .anonymous,
    .addInst (.cmpxchg (.param ⟨0⟩) (.inst ⟨0⟩) (.inst ⟨0⟩) .monotonic .monotonic) .anonymous,
    .pushInst ⟨0⟩ ⟨0⟩, .pushInst ⟨0⟩ ⟨1⟩, .assignIds ⟨0⟩, .removeInst ⟨0⟩ ⟨0⟩]

def steadyGraph : Graph :=
  match empty.run steadyEdits with
  | .ok g => g
  | .error _ => empty

theorem steady_steadyGraph : steadyGraph.Steady :=
  Steady.empty.of_steadyRun (show empty.steadyRun steadyEdits from rfl) rfl

/-- The compared constants keep their vector of bits, and the exchange its pair. -/
theorem steadyGraph_types_current :
    steadyGraph.constType (.expr (.icmp .eq (.const ⟨1⟩) (.const ⟨1⟩))) =
        .ok (⟨9⟩, steadyGraph.types) ∧
      steadyGraph.refreshType ⟨1⟩ = .ok (false, steadyGraph) ∧
      steadyGraph.insts.view Inst.type ⟨1⟩ = some ⟨10⟩ ∧
      steadyGraph.refreshTypes ⟨0⟩ = .ok steadyGraph := by
  obtain ⟨hconsts, hinsts, hfuncs⟩ := steady_types_current steady_steadyGraph
  exact ⟨hconsts ⟨2⟩ ⟨.expr (.icmp .eq (.const ⟨1⟩) (.const ⟨1⟩)), ⟨9⟩⟩ rfl, hinsts ⟨1⟩ _ rfl, rfl,
    hfuncs ⟨0⟩ _ rfl⟩

end Graph

end IrGraph
