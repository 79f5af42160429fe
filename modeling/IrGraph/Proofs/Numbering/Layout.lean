import IrGraph.Proofs.Link.Linked
import IrGraph.Proofs.Types.Known

/-! The local values of a function where they stand: parameters, then for each block its label, its
instructions and its terminator. In a graph that can be reached these are the values that belong to
the function, each once, and all of them have identifiers and types. -/

namespace IrGraph

/-- Whether a value is a parameter. -/
def Value.isParam : Value → Bool
  | .param _ => true
  | _ => false

namespace Graph

def blockPlaces (g : Graph) (b : BlockRef) : List Value :=
  .block b :: (g.blocks.members Block.insts b).map .inst ++
    (g.blocks.members (·.term.toList) b).map .term

def paramPlaces (g : Graph) (f : FuncRef) : List Value :=
  (g.funcs.members Func.params f).map .param

def bodyPlaces (g : Graph) (f : FuncRef) : List Value :=
  (g.funcs.members Func.blocks f).flatMap g.blockPlaces

def places (g : Graph) (f : FuncRef) : List Value :=
  g.paramPlaces f ++ g.bodyPlaces f

/-- The block that a value belongs to; a block belongs to itself. -/
def blockOf? (g : Graph) : Value → Option BlockRef
  | .block b => some b
  | .inst i => g.insts.link Inst.owner i
  | .term t => g.terms.link Term.owner t
  | _ => none

/-- The function that a value belongs to. -/
def homeOf? (g : Graph) : Value → Option FuncRef
  | .param p => g.params.link Param.owner p
  | v => (g.blockOf? v).bind (g.blocks.link Block.owner)

variable {g g' : Graph} {f : FuncRef} {func : Func} {v : Value}

section Places

theorem mem_blockPlaces_iff (h : g.Linked) {b : BlockRef} :
    v ∈ g.blockPlaces b ↔ g.blockOf? v = some b := by
  cases v <;> simp [blockPlaces, blockOf?, ← h.insts.mem_iff, ← h.terms.mem_iff, eq_comm]

theorem placed_blockPlaces (h : g.Linked) : Placed g.blockPlaces g.blockOf? where
  mem_iff b v := mem_blockPlaces_iff h
  nodup b := by
    have hinsts : ((g.blocks.members Block.insts b).map Value.inst).Nodup :=
      (h.insts.nodup b).map fun _ _ hij => by injection hij
    have hterms : ((g.blocks.members (·.term.toList) b).map Value.term).Nodup :=
      (h.terms.nodup b).map fun _ _ hij => by injection hij
    simp [blockPlaces, List.nodup_append, hinsts, hterms]

theorem mem_paramPlaces_iff (h : g.Linked) :
    v ∈ g.paramPlaces f ↔ g.homeOf? v = some f ∧ v.isParam := by
  cases v <;> simp [paramPlaces, homeOf?, Value.isParam, h.params.mem_iff]

theorem mem_bodyPlaces_iff (h : g.Linked) :
    v ∈ g.bodyPlaces f ↔ g.homeOf? v = some f ∧ ¬v.isParam := by
  simp only [bodyPlaces, List.mem_flatMap, mem_blockPlaces_iff h, h.blocks.mem_iff]
  cases v <;> simp [homeOf?, Value.isParam, blockOf?, Option.bind_eq_some_iff, and_comm]

theorem mem_places_iff (h : g.Linked) : v ∈ g.places f ↔ g.homeOf? v = some f := by
  rw [places, List.mem_append, mem_paramPlaces_iff h, mem_bodyPlaces_iff h, ← and_or_left,
    and_iff_left (Classical.em _)]

theorem nodup_places (h : g.Linked) : (g.places f).Nodup := by
  rw [places, List.nodup_append]
  refine ⟨?_, (placed_blockPlaces h).nodup_flatMap (h.blocks.nodup f), ?_⟩
  · exact (h.params.nodup f).map fun _ _ hpq => by injection hpq
  · rintro v hv w hw rfl
    exact ((mem_bodyPlaces_iff h).mp hw).2 ((mem_paramPlaces_iff h).mp hv).2

/-- What belongs to a function is there. -/
theorem exists_identOf?_of_mem (h : g.Linked) (hv : v ∈ g.places f) :
    ∃ ident, g.identOf? v = some ident := by
  rw [mem_places_iff h] at hv
  cases v <;> simp only [homeOf?, blockOf?, Option.bind_some, Option.bind_eq_some_iff,
    Arena.link_eq_some_iff, Option.bind_none, reduceCtorEq] at hv
  case param p =>
    obtain ⟨x, hx, -⟩ := hv
    exact ⟨x.ident, Arena.view_eq_some_iff.mpr ⟨x, hx, rfl⟩⟩
  case block b =>
    obtain ⟨x, hx, -⟩ := hv
    exact ⟨x.ident, Arena.view_eq_some_iff.mpr ⟨x, hx, rfl⟩⟩
  case inst i =>
    obtain ⟨b, ⟨x, hx, -⟩, -⟩ := hv
    exact ⟨x.ident, Arena.view_eq_some_iff.mpr ⟨x, hx, rfl⟩⟩
  case term t =>
    obtain ⟨b, ⟨x, hx, -⟩, -⟩ := hv
    exact ⟨x.ident, Arena.view_eq_some_iff.mpr ⟨x, hx, rfl⟩⟩

/-- The layout of a list of blocks that are all there. -/
theorem exists_body (l : List BlockRef) (hl : ∀ b ∈ l, ∃ x, g.blocks.get? b = some x) :
    ∃ body, l.mapM (fun b => return (b, ← g.blocks.get b)) = Except.ok body ∧
      (body.flatMap fun p => p.2.layout p.1) = l.flatMap g.blockPlaces := by
  induction l with
  | nil => exact ⟨[], rfl, rfl⟩
  | cons b l ih =>
    obtain ⟨x, hx⟩ := hl b List.mem_cons_self
    obtain ⟨body, hbody, hlayout⟩ := ih fun c hc => hl c (List.mem_cons_of_mem b hc)
    refine ⟨(b, x) :: body, ?_, ?_⟩
    · rw [List.mapM_cons, Arena.get_eq_ok_iff.mpr hx, hbody]
      rfl
    · rw [List.flatMap_cons, List.flatMap_cons, hlayout]
      simp [Block.layout, blockPlaces, Arena.members_of_get? hx]

theorem exists_of_mem_blocks {b : BlockRef} (h : g.Linked) (hf : g.funcs.get? f = some func)
    (hb : b ∈ func.blocks) : ∃ x, g.blocks.get? b = some x := by
  have hblocks : g.funcs.members Func.blocks f = func.blocks := Arena.members_of_get? hf
  rw [← hblocks, h.blocks.mem_iff, Arena.link_eq_some_iff] at hb
  exact hb.imp fun _ hx => hx.1

theorem layout_eq_bodyPlaces (h : g.Linked) (hf : g.funcs.get? f = some func) :
    g.layout func = .ok (g.bodyPlaces f) := by
  have hblocks : g.funcs.members Func.blocks f = func.blocks := Arena.members_of_get? hf
  obtain ⟨blocks, hbody, hlayout⟩ := exists_body func.blocks fun b => exists_of_mem_blocks h hf
  rw [bodyPlaces, hblocks, ← hlayout, layout, body, hbody]
  rfl

theorem locals_eq_places (h : g.Linked) (hf : g.funcs.get? f = some func) :
    g.locals func = .ok (g.places f) := by
  rw [locals, layout_eq_bodyPlaces h hf, places, paramPlaces, Arena.members_of_get? hf]
  rfl

end Places

/-- Whether a local value has a result to be named: only an instruction or terminator of type void
has none. -/
def yieldsValue (g : Graph) : Value → Bool
  | .param _ | .block _ => true
  | .inst i => (g.insts.view Inst.type i).any fun r => g.types.get? r ≠ some .void
  | .term t => (g.terms.view Term.type t).any fun r => g.types.get? r ≠ some .void
  | _ => false

/-- Whether a value is to have a number. -/
def takesNumber (g : Graph) (v : Value) : Bool :=
  g.yieldsValue v && (g.identOf? v).any Ident.isUnnamed

/-- The values of a function that are to have a number, in order. -/
def unnamedLocals (g : Graph) (f : FuncRef) : List Value :=
  (g.places f).filter g.takesNumber

/-- The number that a value has. -/
def idOf? (g : Graph) (v : Value) : Option Nat :=
  (g.identOf? v).bind Ident.id

theorem yieldsValue_of_isNumbered {b : Bool} (h : g.isNumbered v = .ok b) : g.yieldsValue v = b := by
  cases v <;> simp only [isNumbered, TypeTable.isVoid, bind_eq_ok_iff, pure_eq_ok_iff,
    Arena.get_eq_ok_iff, TypeTable.get_eq_ok_iff, Except.ok.injEq] at h
  case inst i =>
    obtain ⟨x, hx, isVoid, ⟨type, htype, rfl⟩, rfl⟩ := h
    simp [yieldsValue, Arena.view, hx, htype, beq_eq_decide]
  case term t =>
    obtain ⟨x, hx, isVoid, ⟨type, htype, rfl⟩, rfl⟩ := h
    simp [yieldsValue, Arena.view, hx, htype, beq_eq_decide]
  all_goals exact h

theorem isNumbered_eq_yieldsValue (h : g.Known) {ident : Ident} (hv : g.identOf? v = some ident) :
    g.isNumbered v = .ok (g.yieldsValue v) := by
  cases v <;> simp only [identOf?, Arena.view_eq_some_iff, reduceCtorEq] at hv
  case param p => rfl
  case block b => rfl
  case inst i =>
    obtain ⟨x, hx, -⟩ := hv
    have htype : g.types.Has x.type :=
      h.named (.inst i) x.type (by simp [typesOf, Arena.members_of_get? hx])
    rw [isNumbered, Arena.get_eq_ok_iff.mpr hx]
    change (do return !(← g.types.isVoid x.type)) = _
    rw [htype.isVoid, yieldsValue, Arena.view, hx]
    simp [bind, Except.bind, pure, Except.pure]
  case term t =>
    obtain ⟨x, hx, -⟩ := hv
    have htype : g.types.Has x.type :=
      h.named (.term t) x.type (by simp [typesOf, Arena.members_of_get? hx])
    rw [isNumbered, Arena.get_eq_ok_iff.mpr hx]
    change (do return !(← g.types.isVoid x.type)) = _
    rw [htype.isVoid, yieldsValue, Arena.view, hx]
    simp [bind, Except.bind, pure, Except.pure]

section Idents

variable {φ : Value → Ident → Ident}

theorem places_mapIdents (g : Graph) (φ : Value → Ident → Ident) (f : FuncRef) :
    (g.mapIdents φ).places f = g.places f := by
  have hinsts : (g.mapIdents φ).blocks.members Block.insts = g.blocks.members Block.insts :=
    Arena.members_mapRefs_of_eq fun _ _ => rfl
  have hterms : (g.mapIdents φ).blocks.members (·.term.toList) = g.blocks.members (·.term.toList) :=
    Arena.members_mapRefs_of_eq fun _ _ => rfl
  have hblocks : (g.mapIdents φ).blockPlaces = g.blockPlaces := by
    funext b
    rw [blockPlaces, hinsts, hterms, blockPlaces]
  rw [places, bodyPlaces, hblocks]
  rfl

theorem homeOf?_mapIdents (g : Graph) (φ : Value → Ident → Ident) (v : Value) :
    (g.mapIdents φ).homeOf? v = g.homeOf? v := by
  have hparams : (g.mapIdents φ).params.link Param.owner = g.params.link Param.owner :=
    Arena.link_mapRefs_of_eq fun _ _ => rfl
  have hblocks : (g.mapIdents φ).blocks.link Block.owner = g.blocks.link Block.owner :=
    Arena.link_mapRefs_of_eq fun _ _ => rfl
  have hinsts : (g.mapIdents φ).insts.link Inst.owner = g.insts.link Inst.owner :=
    Arena.link_mapRefs_of_eq fun _ _ => rfl
  have hterms : (g.mapIdents φ).terms.link Term.owner = g.terms.link Term.owner :=
    Arena.link_mapRefs_of_eq fun _ _ => rfl
  cases v <;> simp only [homeOf?, blockOf?, hparams, hblocks, hinsts, hterms]

theorem yieldsValue_mapIdents (g : Graph) (φ : Value → Ident → Ident) (v : Value) :
    (g.mapIdents φ).yieldsValue v = g.yieldsValue v := by
  have hinsts : (g.mapIdents φ).insts.view Inst.type = g.insts.view Inst.type :=
    Arena.view_mapRefs_of_eq fun _ _ => rfl
  have hterms : (g.mapIdents φ).terms.view Term.type = g.terms.view Term.type :=
    Arena.view_mapRefs_of_eq fun _ _ => rfl
  cases v <;> simp only [yieldsValue, hinsts, hterms]
  all_goals rfl

/-- Numbers do not decide on which values take one. -/
theorem takesNumber_mapIdents (hφ : ∀ v ident, (φ v ident).name = ident.name) (v : Value) :
    (g.mapIdents φ).takesNumber v = g.takesNumber v := by
  have hunnamed (ident : Ident) : (φ v ident).isUnnamed = ident.isUnnamed := by
    rw [Ident.isUnnamed, hφ, Ident.isUnnamed]
  simp only [takesNumber, yieldsValue_mapIdents, identOf?_mapIdents, Option.any_map,
    hunnamed]

theorem unnamedLocals_mapIdents (hφ : ∀ v ident, (φ v ident).name = ident.name) (f : FuncRef) :
    (g.mapIdents φ).unnamedLocals f = g.unnamedLocals f := by
  rw [unnamedLocals, places_mapIdents, List.filter_congr fun v _ => takesNumber_mapIdents hφ v]
  rfl

end Idents

end Graph

end IrGraph
