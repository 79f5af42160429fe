import IrGraph.Proofs.Edit.Effect
import IrGraph.Proofs.Edit.Idents
import IrGraph.Proofs.Slot.Instruction
import IrGraph.Proofs.Slot.Terminator
import IrGraph.Proofs.Types.Closed
import IrGraph.Proofs.Types.Extends

/-! Types that a graph can look up. In a graph made by edits that name only types from its table,
all types are in the table: those that entities have, and those that kinds and constants name. -/

namespace IrGraph

theorem Instruction.types_of_write {k k' : Instruction} {s : InstSlot} {v : Value}
    (h : k.write s v = some k') : k'.types = k.types := by
  rw [← eq_of_write h]
  cases k <;> rfl

theorem Terminator.types_of_write {k k' : Terminator} {s : TermSlot} {v : Value}
    (h : k.write s v = some k') : k'.types = k.types := by
  rw [← eq_of_write h]
  cases k <;> rfl

namespace Graph

/-- The type of an entity and the types it names. -/
def typesOf (g : Graph) : Value → List TypeRef
  | .param p => g.params.members (fun x => [x.type]) p
  | .inst i => g.insts.members (fun x => x.type :: x.kind.types) i
  | .term t => g.terms.members (fun x => x.type :: x.kind.types) t
  | .const c => g.consts.members (fun x => x.type :: x.data.types) c
  | _ => []

structure Known (g : Graph) : Prop where
  closed : g.types.Closed
  named : ∀ v, ∀ r ∈ g.typesOf v, g.types.Has r

namespace Known

variable {g g' : Graph} {v : Value} {type : TypeRef} {types : TypeTable}

theorem empty : Graph.empty.Known where
  closed := TypeTable.closed_initial
  named v r hr := by
    cases v <;>
      simp [typesOf, Graph.empty, Arena.empty, Arena.members, Arena.view, Arena.get?] at hr

section Typing

theorem valueType (h : g.Known) (hv : g.valueType v = .ok type) : g.types.Has type := by
  have hfirst : ∀ n < 5, g.types.Has ⟨n⟩ := fun n hn => Nat.lt_of_lt_of_le hn h.closed.initial
  cases v with
  | const c =>
    simp only [Graph.valueType] at hv
    split at hv
    · rename_i x hx
      cases hv
      exact h.named (.const c) _ (by simp [typesOf, Arena.members_of_get? hx])
    · cases hv
      exact hfirst 0 (by decide)
  | param p =>
    simp only [Graph.valueType, bind_eq_ok_iff, pure_eq_ok_iff, Arena.get_eq_ok_iff] at hv
    obtain ⟨x, hx, rfl⟩ := hv
    exact h.named (.param p) _ (by simp [typesOf, Arena.members_of_get? hx])
  | inst i =>
    simp only [Graph.valueType, bind_eq_ok_iff, pure_eq_ok_iff, Arena.get_eq_ok_iff] at hv
    obtain ⟨x, hx, rfl⟩ := hv
    exact h.named (.inst i) _ (by simp [typesOf, Arena.members_of_get? hx])
  | term t =>
    simp only [Graph.valueType, bind_eq_ok_iff, pure_eq_ok_iff, Arena.get_eq_ok_iff] at hv
    obtain ⟨x, hx, rfl⟩ := hv
    exact h.named (.term t) _ (by simp [typesOf, Arena.members_of_get? hx])
  | _ =>
    cases hv
    exact hfirst _ (by decide)

theorem funcResult {r : TypeRef} (h : g.Known) (hr : g.funcResult r = .ok type) :
    g.types.Has type := by
  obtain ⟨ty, hty, hr⟩ := bind_eq_ok_iff.mp hr
  rw [TypeTable.get_eq_ok_iff] at hty
  split at hr
  · obtain rfl := pure_eq_ok_iff.mp hr
    exact h.closed.has_component hty (by simp [IrType.components])
  · exact (bind_throw_ne_ok hr).elim

theorem vectorElem {r : TypeRef} (h : g.Known) (hr : g.vectorElem r = .ok type) :
    g.types.Has type := by
  obtain ⟨ty, hty, hr⟩ := bind_eq_ok_iff.mp hr
  rw [TypeTable.get_eq_ok_iff] at hty
  split at hr
  · obtain rfl := pure_eq_ok_iff.mp hr
    exact h.closed.has_component hty (by simp [IrType.components])
  · exact (bind_throw_ne_ok hr).elim

theorem aggregateElem {r : TypeRef} {path : List Nat} (h : g.Known) (hr : g.types.Has r)
    (hpath : g.aggregateElem r path = .ok type) : g.types.Has type := by
  induction path generalizing r with
  | nil =>
    cases hpath
    exact hr
  | cons i path ih =>
    obtain ⟨ty, hty, hpath⟩ := bind_eq_ok_iff.mp hpath
    rw [TypeTable.get_eq_ok_iff] at hty
    split at hpath
    · exact ih (h.closed.has_component hty (by simp [IrType.components])) hpath
    · exact ih (h.closed.has_component hty (by simp [IrType.components])) hpath
    · split at hpath
      · rename_i field hfield
        exact ih (h.closed.has_component hty (List.mem_of_getElem? hfield)) hpath
      · exact (bind_throw_ne_ok hpath).elim
    · exact (bind_throw_ne_ok hpath).elim

theorem comparisonType (h : g.Known) (hv : g.comparisonType v = .ok (type, types)) :
    g.types.Adds types type := by
  unfold Graph.comparisonType at hv
  generalize hone : g.types.intern (.int 1) = one at hv
  obtain ⟨bit, mid⟩ := one
  have hbit := h.closed.intern (by simp [IrType.components]) hone
  simp only [bind_eq_ok_iff] at hv
  obtain ⟨operand, -, ty, -, hv⟩ := hv
  split at hv
  · refine hbit.trans (hbit.closed.intern ?_ (pure_eq_ok_iff.mp hv))
    simp [IrType.components, hbit.has]
  · cases pure_eq_ok_iff.mp hv
    exact hbit

theorem shuffleType {x mask : Value} (h : g.Known)
    (hv : g.shuffleType x mask = .ok (type, types)) : g.types.Adds types type := by
  simp only [Graph.shuffleType, bind_eq_ok_iff] at hv
  obtain ⟨operand, -, elem, helem, maskType, -, ty, -, hv⟩ := hv
  split at hv
  · refine h.closed.intern ?_ (pure_eq_ok_iff.mp hv)
    simp [IrType.components, h.vectorElem helem]
  · exact (throw_ne_ok hv).elim

theorem exchangeType (h : g.Known) (hv : g.exchangeType v = .ok (type, types)) :
    g.types.Adds types type := by
  unfold Graph.exchangeType at hv
  generalize hone : g.types.intern (.int 1) = one at hv
  obtain ⟨bit, mid⟩ := one
  have hbit := h.closed.intern (by simp [IrType.components]) hone
  obtain ⟨found, hfound, hv⟩ := bind_eq_ok_iff.mp hv
  refine hbit.trans (hbit.closed.intern ?_ (pure_eq_ok_iff.mp hv))
  simp [IrType.components, hbit.has, hbit.kept _ (h.valueType hfound)]

theorem adds_known {x : Except Fault TypeRef} (h : g.Known)
    (hx : ∀ r, x = .ok r → g.types.Has r)
    (hk : (do return g.known (← x)) = Except.ok (type, types)) : g.types.Adds types type := by
  obtain ⟨hr, rfl⟩ := known_eq_ok hk
  exact h.closed.adds (hx type hr)

theorem instType {kind : Instruction} (h : g.Known) (hkind : ∀ r ∈ kind.types, g.types.Has r)
    (ht : g.instType kind = .ok (type, types)) : g.types.Adds types type := by
  cases kind with
  | shuffleVector x y mask => exact h.shuffleType ht
  | cmpxchg pointer expected => exact h.exchangeType ht
  | icmp _ x | fcmp _ x => exact h.comparisonType ht
  | extractElement x index =>
    obtain ⟨operand, -, ht⟩ := bind_eq_ok_iff.mp ht
    exact h.adds_known (fun r hr => h.vectorElem hr) ht
  | extractValue x path =>
    obtain ⟨operand, hoperand, ht⟩ := bind_eq_ok_iff.mp ht
    exact h.adds_known (fun r hr => h.aggregateElem (h.valueType hoperand) hr) ht
  | alloca _ _ addrSpace =>
    exact h.closed.intern (by simp [IrType.components]) (pure_eq_ok_iff.mp ht)
  | load | phi | vaArg | landingpad | conversion =>
    cases ht
    exact h.closed.adds (hkind _ (by simp [Instruction.types]))
  | call => exact h.adds_known (fun r hr => h.funcResult hr) ht
  | store | fence | comment | catchpad | cleanuppad =>
    cases ht
    exact h.closed.adds (Nat.lt_of_lt_of_le (by decide) h.closed.initial)
  | _ => exact h.adds_known (fun r hr => h.valueType hr) ht

theorem termType {kind : Terminator} (h : g.Known) (ht : g.termType kind = .ok type) :
    g.types.Has type := by
  cases kind with
  | invoke | callbr => exact h.funcResult ht
  | _ =>
    cases ht
    exact Nat.lt_of_lt_of_le (by decide) h.closed.initial

theorem exprType {e : ConstExpr} (h : g.Known) (he : ∀ r ∈ e.types, g.types.Has r)
    (ht : g.exprType e = .ok (type, types)) : g.types.Adds types type := by
  cases e with
  | shuffleVector x y mask => exact h.shuffleType ht
  | icmp _ x | fcmp _ x => exact h.comparisonType ht
  | extractElement x index =>
    obtain ⟨operand, -, ht⟩ := bind_eq_ok_iff.mp ht
    exact h.adds_known (fun r hr => h.vectorElem hr) ht
  | extractValue x path =>
    obtain ⟨operand, hoperand, ht⟩ := bind_eq_ok_iff.mp ht
    exact h.adds_known (fun r hr => h.aggregateElem (h.valueType hoperand) hr) ht
  | conversion =>
    cases ht
    exact h.closed.adds (he _ (by simp [ConstExpr.types]))
  | _ => exact h.adds_known (fun r hr => h.valueType hr) ht

theorem constType {data : Constant} (h : g.Known) (hdata : ∀ r ∈ data.types, g.types.Has r)
    (ht : g.constType data = .ok (type, types)) : g.types.Adds types type := by
  cases data with
  | expr e => exact h.exprType hdata ht
  | noneToken | blockAddress =>
    cases ht
    exact h.closed.adds (Nat.lt_of_lt_of_le (by decide) h.closed.initial)
  | _ =>
    cases ht
    exact h.closed.adds (hdata _ (by simp [Constant.types]))

end Typing

section Edits

variable {i : InstRef} {t : TermRef} {c : ConstRef} {ident : Ident}

/-- What a change of the graph has to keep. -/
theorem of_typesOf (h : g.Known) (hclosed : g'.types.Closed)
    (hkept : ∀ r, g.types.Has r → g'.types.Has r)
    (hnamed : ∀ v, ∀ r ∈ g'.typesOf v, r ∈ g.typesOf v ∨ g'.types.Has r) : g'.Known where
  closed := hclosed
  named v r hr := (hnamed v r hr).elim (fun hr => hkept r (h.named v r hr)) id

theorem of_typesOf_eq (h : g.Known) (htypes : g'.types = g.types)
    (hsame : ∀ v, g'.typesOf v = g.typesOf v) : g'.Known where
  closed := htypes ▸ h.closed
  named v r hr := htypes ▸ h.named v r (hsame v ▸ hr)

theorem intern {ty : IrType} {r : TypeRef} (h : g.Known) (hc : ∀ c ∈ ty.components, g.types.Has c)
    (hi : g.intern ty = (r, g')) : g'.Known ∧ g'.types.Has r := by
  cases hi
  have hadds := h.closed.intern hc rfl
  exact ⟨h.of_typesOf hadds.closed hadds.kept fun _ _ hr => .inl hr, hadds.has⟩

theorem addParam (h : g.Known) (htype : g.types.Has type) : (g.addParam type ident).2.Known := by
  refine h.of_typesOf h.closed (fun _ hr => hr) fun v r hr => ?_
  cases v <;> try exact .inl hr
  refine (Arena.mem_members_push hr).imp_right fun hr => ?_
  rwa [List.mem_singleton.mp hr]

theorem addInst {kind : Instruction} (h : g.Known) (hkind : ∀ r ∈ kind.types, g.types.Has r)
    (ha : g.addInst kind ident = .ok (i, g')) : g'.Known := by
  obtain ⟨type, types, ht, rfl⟩ := addInst_eq_ok ha
  have hadds := h.instType hkind ht
  refine h.of_typesOf hadds.closed hadds.kept fun v r hr => ?_
  cases v <;> try exact .inl hr
  refine (Arena.mem_members_push hr).imp_right fun hr => ?_
  rcases List.mem_cons.mp hr with rfl | hr
  · exact hadds.has
  · exact hadds.kept r (hkind r hr)

theorem addTerm {kind : Terminator} (h : g.Known) (hkind : ∀ r ∈ kind.types, g.types.Has r)
    (ha : g.addTerm kind ident = .ok (t, g')) : g'.Known := by
  obtain ⟨type, ht, rfl⟩ := addTerm_eq_ok ha
  refine h.of_typesOf h.closed (fun _ hr => hr) fun v r hr => ?_
  cases v <;> try exact .inl hr
  refine (Arena.mem_members_push hr).imp_right fun hr => ?_
  rcases List.mem_cons.mp hr with rfl | hr
  · exact h.termType ht
  · exact hkind r hr

theorem addConst {data : Constant} (h : g.Known) (hdata : ∀ r ∈ data.types, g.types.Has r)
    (ha : g.addConst data = .ok (c, g')) : g'.Known := by
  obtain ⟨type, types, ht, rfl⟩ := addConst_eq_ok ha
  have hadds := h.constType hdata ht
  refine h.of_typesOf hadds.closed hadds.kept fun v r hr => ?_
  cases v <;> try exact .inl hr
  refine (Arena.mem_members_push hr).imp_right fun hr => ?_
  rcases List.mem_cons.mp hr with rfl | hr
  · exact hadds.has
  · exact hadds.kept r (hdata r hr)

theorem addBytes {bytes : List UInt8} (h : g.Known) (ha : g.addBytes bytes = .ok (c, g')) :
    g'.Known := by
  unfold Graph.addBytes at ha
  generalize hbyte : g.intern (.int 8) = step at ha
  obtain ⟨byte, g₁⟩ := step
  obtain ⟨h₁, hb⟩ := h.intern (by simp [IrType.components]) hbyte
  simp only at ha
  generalize harray : g₁.intern (.array bytes.length byte) = step at ha
  obtain ⟨array, g₂⟩ := step
  obtain ⟨h₂, ha'⟩ := h₁.intern (by simpa [IrType.components] using hb) harray
  exact h₂.addConst (by simpa [Constant.types] using ha') ha

theorem setInstKind {kind : Instruction} (h : g.Known) (hkind : ∀ r ∈ kind.types, g.types.Has r)
    (hk : g.setInstKind i kind = .ok g') : g'.Known := by
  obtain ⟨⟨inst, hi⟩, rfl⟩ := setInstKind_eq_ok hk
  refine h.of_typesOf h.closed (fun _ hr => hr) fun v r hr => ?_
  cases v <;> try exact .inl hr
  refine (Arena.mem_members_onlyAt hr).imp_right fun ⟨x, hx, hr⟩ => ?_
  rcases List.mem_cons.mp hr with rfl | hr
  · exact h.named (.inst i) _ (by simp [typesOf, Arena.members_of_get? hx])
  · exact hkind r hr

theorem setTermKind {kind : Terminator} (h : g.Known) (hkind : ∀ r ∈ kind.types, g.types.Has r)
    (hk : g.setTermKind t kind = .ok g') : g'.Known := by
  obtain ⟨⟨term, ht⟩, rfl⟩ := setTermKind_eq_ok hk
  refine h.of_typesOf h.closed (fun _ hr => hr) fun v r hr => ?_
  cases v <;> try exact .inl hr
  refine (Arena.mem_members_onlyAt hr).imp_right fun ⟨x, hx, hr⟩ => ?_
  rcases List.mem_cons.mp hr with rfl | hr
  · exact h.named (.term t) _ (by simp [typesOf, Arena.members_of_get? hx])
  · exact hkind r hr

theorem replaceUse {u : Use} (h : g.Known) (hu : g.replaceUse u v = .ok g') : g'.Known := by
  cases u with
  | inst i s =>
    obtain ⟨inst, kind, hi, hwrite, hk⟩ := replaceUse_inst_eq_ok hu
    refine h.setInstKind (fun r hr => ?_) hk
    rw [Instruction.types_of_write hwrite] at hr
    exact h.named (.inst i) r (by simp [typesOf, Arena.members_of_get? hi, hr])
  | term t s =>
    obtain ⟨term, kind, ht, hwrite, hk⟩ := replaceUse_term_eq_ok hu
    refine h.setTermKind (fun r hr => ?_) hk
    rw [Terminator.types_of_write hwrite] at hr
    exact h.named (.term t) r (by simp [typesOf, Arena.members_of_get? ht, hr])

theorem refreshType {changed : Bool} (h : g.Known) (hr : g.refreshType i = .ok (changed, g')) :
    g'.Known := by
  obtain ⟨inst, type, types, hi, ht, rfl⟩ := refreshType_eq_ok hr
  have hkind : ∀ r ∈ inst.kind.types, g.types.Has r := by
    intro r hr
    exact h.named (.inst i) r (by simp [typesOf, Arena.members_of_get? hi, hr])
  have hadds := h.instType hkind ht
  refine h.of_typesOf hadds.closed hadds.kept fun v r hr => ?_
  cases v <;> try exact .inl hr
  refine (Arena.mem_members_onlyAt hr).imp_right fun ⟨x, hx, hr⟩ => ?_
  obtain rfl := Option.some.inj (hi.symm.trans hx)
  rcases List.mem_cons.mp hr with rfl | hr
  · exact hadds.has
  · exact hadds.kept r (hkind r hr)

theorem simplify {c' : ConstRef} (h : g.Known) (hs : g.simplify c = .ok (c', g')) : g'.Known := by
  refine simplify_induction ?_ h hs
  intro g g' x stored literal c h hx htypes _ ha
  refine h.addConst (fun r hr => ?_) ha
  rw [htypes] at hr
  exact h.named (.const x) r (by simp [typesOf, Arena.members_of_get? hx, hr])

theorem mapIdents (h : g.Known) (φ : Value → Ident → Ident) : (g.mapIdents φ).Known := by
  refine h.of_typesOf_eq rfl fun v => ?_
  cases v <;> simp only [typesOf, Graph.mapIdents]
  all_goals
    apply congrFun
    apply Arena.members_mapRefs_of_eq
    exact fun _ _ => rfl

/-- An instruction moves: some block and its owner change. -/
theorem moveInst (h : g.Known) (owner : Inst → Option BlockRef) (blocks : Arena .block Block) :
    Known { g with
      blocks, insts := g.insts.mapRefs (onlyAt i fun x => { x with owner := owner x }) } := by
  refine h.of_typesOf_eq rfl fun v => ?_
  cases v <;> try rfl
  simp only [typesOf]
  rw [Arena.members_onlyAt_of_eq]
  exact fun _ => rfl

theorem addFunc {func : Func} {f : FuncRef} (h : g.Known) (hf : g.addFunc func = .ok (f, g')) :
    g'.Known := by
  obtain ⟨-, -, -, rfl⟩ := addFunc_eq_ok hf
  refine h.of_typesOf_eq rfl fun v => ?_
  cases v <;> try rfl
  simp only [typesOf]
  rw [Arena.members_mapRefs_of_eq]
  intro p x
  split <;> rfl

theorem setTerm {b : BlockRef} (h : g.Known) (ht : g.setTerm b t = .ok g') : g'.Known := by
  obtain ⟨_, _, -, -, -, rfl⟩ := setTerm_eq_ok ht
  refine h.of_typesOf_eq rfl fun v => ?_
  cases v <;> try rfl
  simp only [typesOf]
  rw [Arena.members_mapRefs_of_eq]
  intro r x
  split
  · rfl
  · split <;> rfl

/-- An edit that names only types from the table leaves a graph of the same sort. -/
theorem apply {e : Edit} (h : g.Known) (htypes : ∀ r ∈ e.types, g.types.Has r)
    (he : e.apply g = .ok g') : g'.Known := by
  cases e with
  | addModule | addGlobal | addAlias | addIFunc | addUseListOrder | addUseListOrderBlock
  | addMetadata | addNamedMetadata | addBlock =>
    cases he
    exact ⟨h.closed, h.named⟩
  | intern type =>
    cases he
    exact (h.intern htypes rfl).1
  | addParam type =>
    cases he
    exact h.addParam (htypes type (by simp [Edit.types]))
  | addInst kind =>
    obtain ⟨i, he⟩ := return_snd_eq_ok_iff.mp he
    exact h.addInst htypes he
  | addComment text =>
    obtain ⟨i, he⟩ := return_snd_eq_ok_iff.mp he
    exact h.addInst (by simp [Instruction.types]) he
  | addTerm kind =>
    obtain ⟨t, he⟩ := return_snd_eq_ok_iff.mp he
    exact h.addTerm htypes he
  | addConst data =>
    obtain ⟨c, he⟩ := return_snd_eq_ok_iff.mp he
    exact h.addConst htypes he
  | addInt type value =>
    obtain ⟨c, he⟩ := return_snd_eq_ok_iff.mp he
    refine h.addConst ?_ he
    exact htypes
  | addZero type =>
    obtain ⟨c, he⟩ := return_snd_eq_ok_iff.mp he
    obtain ⟨data, hdata, -, he⟩ := addZero_eq_ok he
    exact h.addConst (hdata ▸ htypes) he
  | addCString | addPascalString =>
    obtain ⟨c, he⟩ := return_snd_eq_ok_iff.mp he
    exact h.addBytes he
  | setInstKind i kind => exact h.setInstKind htypes he
  | setTermKind t kind => exact h.setTermKind htypes he
  | replaceUse => exact h.replaceUse he
  | refreshType =>
    obtain ⟨changed, he⟩ := return_snd_eq_ok_iff.mp he
    exact h.refreshType he
  | refreshTypes => exact refreshTypes_induction (fun _ _ _ _ h hr => h.refreshType hr) h he
  | simplify =>
    obtain ⟨c, he⟩ := return_snd_eq_ok_iff.mp he
    exact h.simplify he
  | rename v name =>
    rw [modifyIdent_eq_ok (f := (·.rename name)) he]
    exact h.mapIdents _
  | assignIds =>
    obtain ⟨e, he⟩ := return_snd_eq_ok_iff.mp he
    obtain ⟨φ, rfl⟩ := assignIds_eq_mapIdents he
    exact h.mapIdents φ
  | resetNames =>
    obtain ⟨φ, rfl⟩ := resetNames_eq_mapIdents he
    exact h.mapIdents φ
  | setMetadata =>
    obtain ⟨metadata, rfl⟩ := setMetadata_eq_ok he
    exact ⟨h.closed, h.named⟩
  | addFunc =>
    obtain ⟨f, he⟩ := return_snd_eq_ok_iff.mp he
    exact h.addFunc he
  | pushBlock =>
    obtain ⟨_, _, -, -, -, rfl⟩ := pushBlock_eq_ok he
    exact ⟨h.closed, h.named⟩
  | pushInst =>
    obtain ⟨_, _, -, -, -, rfl⟩ := pushInst_eq_ok he
    exact h.moveInst _ _
  | insertInstBefore =>
    obtain ⟨_, _, _, -, -, -, -, rfl⟩ := insertInstBefore_eq_ok he
    exact h.moveInst _ _
  | removeInst =>
    obtain ⟨_, _, -, -, rfl⟩ := removeInst_eq_ok he
    exact h.moveInst _ _
  | setTerm => exact h.setTerm he

end Edits

end Known

theorem Reachable.known {g : Graph} (h : g.Reachable) : g.Known := by
  induction h with
  | empty => exact .empty
  | edit e _ htypes he ih => exact ih.apply htypes he

end Graph

end IrGraph
