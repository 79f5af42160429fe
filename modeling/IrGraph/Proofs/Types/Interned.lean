import Mathlib.Logic.Relation
import IrGraph.Proofs.Edit.Effect
import IrGraph.Proofs.Edit.Idents
import IrGraph.Proofs.Types.Extends
import IrGraph.Proofs.Types.Tree

/-! Tables whose types are all stored once. The index and the entries of a table are inverse to each
other, whatever is asked of it directly or through a graph; so references are as good as types. -/

namespace IrGraph

namespace Graph

variable {g g' : Graph}

theorem types_extends_of_addInst {kind : Instruction} {ident : Ident} {i : InstRef}
    (h : g.addInst kind ident = .ok (i, g')) : g.types.Extends g'.types := by
  obtain ⟨type, types, htype, rfl⟩ := addInst_eq_ok h
  exact instType_extends htype

theorem types_extends_of_addConst {data : Constant} {c : ConstRef}
    (h : g.addConst data = .ok (c, g')) : g.types.Extends g'.types := by
  obtain ⟨type, types, htype, rfl⟩ := addConst_eq_ok h
  exact constType_extends htype

theorem types_extends_of_addBytes {bytes : List UInt8} {c : ConstRef}
    (h : g.addBytes bytes = .ok (c, g')) : g.types.Extends g'.types := by
  have hbyte : g.types.Extends (g.intern (.int 8)).2.types := .intern rfl
  exact hbyte.trans (.trans (.intern rfl) (types_extends_of_addConst h))

theorem types_extends_of_refreshType {i : InstRef} {changed : Bool}
    (h : g.refreshType i = .ok (changed, g')) : g.types.Extends g'.types := by
  obtain ⟨inst, type, types, -, htype, rfl⟩ := refreshType_eq_ok h
  exact instType_extends htype

theorem types_extends_of_apply {e : Edit} (h : e.apply g = .ok g') :
    g.types.Extends g'.types := by
  cases e with
  | addModule | addGlobal | addAlias | addIFunc | addUseListOrder | addUseListOrderBlock
  | addMetadata | addNamedMetadata | addBlock | addParam =>
    cases h
    exact .refl _
  | intern type =>
    cases h
    exact .intern rfl
  | addInst | addComment =>
    obtain ⟨i, h⟩ := return_snd_eq_ok_iff.mp h
    exact types_extends_of_addInst h
  | addTerm =>
    obtain ⟨t, h⟩ := return_snd_eq_ok_iff.mp h
    obtain ⟨type, -, rfl⟩ := addTerm_eq_ok h
    exact .refl _
  | addConst | addInt =>
    obtain ⟨c, h⟩ := return_snd_eq_ok_iff.mp h
    exact types_extends_of_addConst h
  | addZero =>
    obtain ⟨c, h⟩ := return_snd_eq_ok_iff.mp h
    obtain ⟨data, -, -, h⟩ := addZero_eq_ok h
    exact types_extends_of_addConst h
  | addCString | addPascalString =>
    obtain ⟨c, h⟩ := return_snd_eq_ok_iff.mp h
    exact types_extends_of_addBytes h
  | refreshType =>
    obtain ⟨changed, h⟩ := return_snd_eq_ok_iff.mp h
    exact types_extends_of_refreshType h
  | refreshTypes =>
    refine refreshTypes_induction (P := (g.types.Extends ·.types)) ?_ (.refl _) h
    exact fun _ _ _ _ hg hr => hg.trans (types_extends_of_refreshType hr)
  | simplify =>
    obtain ⟨c, h⟩ := return_snd_eq_ok_iff.mp h
    refine simplify_induction (P := (g.types.Extends ·.types)) ?_ (.refl _) h
    exact fun _ _ _ _ _ _ hg _ _ _ ha => hg.trans (types_extends_of_addConst ha)
  | setInstKind =>
    obtain ⟨-, rfl⟩ := setInstKind_eq_ok h
    exact .refl _
  | setTermKind =>
    obtain ⟨-, rfl⟩ := setTermKind_eq_ok h
    exact .refl _
  | replaceUse u v =>
    cases u with
    | inst =>
      obtain ⟨_, _, -, -, h⟩ := replaceUse_inst_eq_ok h
      obtain ⟨-, rfl⟩ := setInstKind_eq_ok h
      exact .refl _
    | term =>
      obtain ⟨_, _, -, -, h⟩ := replaceUse_term_eq_ok h
      obtain ⟨-, rfl⟩ := setTermKind_eq_ok h
      exact .refl _
  | rename v name =>
    rw [modifyIdent_eq_ok (f := (·.rename name)) h]
    exact .refl _
  | assignIds =>
    obtain ⟨e, h⟩ := return_snd_eq_ok_iff.mp h
    obtain ⟨φ, rfl⟩ := assignIds_eq_mapIdents h
    exact .refl _
  | resetNames =>
    obtain ⟨φ, rfl⟩ := resetNames_eq_mapIdents h
    exact .refl _
  | setMetadata =>
    obtain ⟨metadata, rfl⟩ := setMetadata_eq_ok h
    exact .refl _
  | addFunc =>
    obtain ⟨f, h⟩ := return_snd_eq_ok_iff.mp h
    obtain ⟨-, -, -, rfl⟩ := addFunc_eq_ok h
    exact .refl _
  | pushBlock =>
    obtain ⟨_, _, -, -, -, rfl⟩ := pushBlock_eq_ok h
    exact .refl _
  | pushInst =>
    obtain ⟨_, _, -, -, -, rfl⟩ := pushInst_eq_ok h
    exact .refl _
  | insertInstBefore =>
    obtain ⟨_, _, _, -, -, -, -, rfl⟩ := insertInstBefore_eq_ok h
    exact .refl _
  | removeInst =>
    obtain ⟨_, _, -, -, rfl⟩ := removeInst_eq_ok h
    exact .refl _
  | setTerm =>
    obtain ⟨_, _, -, -, -, rfl⟩ := setTerm_eq_ok h
    exact .refl _

end Graph

namespace TypeTable

def empty : TypeTable :=
  ⟨#[], []⟩

/-- A type is asked for, or a graph that has the table is edited. -/
inductive Step : TypeTable → TypeTable → Prop
  | intern (t : TypeTable) (type : IrType) : Step t (t.intern type).2
  | edit {g g' : Graph} (e : Edit) (h : e.apply g = .ok g') : Step g.types g'.types

abbrev Steps : TypeTable → TypeTable → Prop :=
  Relation.ReflTransGen Step

/-- The index says of each type where it is, and of no other. -/
def Interned (t : TypeTable) : Prop :=
  ∀ type r, t.index.lookup type = some r ↔ t.get? r = some type

variable {t t' : TypeTable} {r s : TypeRef} {type : IrType}

section Steps

theorem Step.extends (h : Step t t') : t.Extends t' := by
  cases h with
  | intern type => exact .intern rfl
  | edit e h => exact Graph.types_extends_of_apply h

theorem Steps.extends (h : Steps t t') : t.Extends t' := by
  induction h with
  | refl => exact .refl t
  | tail _ hlast ih => exact ih.trans hlast.extends

theorem steps_internAll (t : TypeTable) (types : List IrType) : Steps t (t.internAll types) := by
  induction types generalizing t with
  | nil => exact .refl
  | cons type types ih => exact .head (.intern t type) (ih _)

theorem steps_run {g g' : Graph} {edits : List Edit} (h : g.run edits = .ok g') :
    Steps g.types g'.types :=
  Graph.run_induction (P := (Steps g.types ·.types)) (fun e _ _ hg he => hg.tail (.edit e he))
    .refl h

end Steps

namespace Interned

theorem empty : TypeTable.empty.Interned := by
  intro type r
  simp [TypeTable.empty, get?]

theorem intern_of_get? (h : t.Interned) (hr : t.get? r = some type) : t.intern type = (r, t) :=
  intern_of_lookup ((h type r).mpr hr)

theorem eq_of_get? (h : t.Interned) (hr : t.get? r = some type) (hs : t.get? s = some type) :
    r = s := by
  rw [← h type] at hr hs
  exact Option.some.inj (hr.symm.trans hs)

theorem intern_of_forall_ne (h : t.Interned) (hnew : ∀ r, t.get? r ≠ some type) :
    t.intern type =
      (⟨t.entries.size⟩, ⟨t.entries.push type, (type, ⟨t.entries.size⟩) :: t.index⟩) := by
  have hnone : t.index.lookup type = none := by
    rw [Option.eq_none_iff_forall_ne_some]
    exact fun r hr => hnew r ((h type r).mp hr)
  rw [TypeTable.intern, hnone]

theorem exists_or_forall_ne (t : TypeTable) (type : IrType) :
    (∃ r, t.get? r = some type) ∨ ∀ r, t.get? r ≠ some type := by
  rw [← not_exists]
  exact Classical.em _

theorem intern (h : t.Interned) (type : IrType) : (t.intern type).2.Interned := by
  rcases exists_or_forall_ne t type with ⟨r, hr⟩ | hnew
  · rwa [h.intern_of_get? hr]
  · rw [h.intern_of_forall_ne hnew]
    intro type' s
    have hget : (t.entries.push type)[s.index]? =
        if s.index = t.entries.size then some type else t.get? s := Array.getElem?_push
    change List.lookup type' ((type, ⟨t.entries.size⟩) :: t.index) = some s ↔
      (t.entries.push type)[s.index]? = some type'
    by_cases htype : type' = type
    · subst htype
      rw [List.lookup_cons_self, hget]
      split
      case isTrue hs =>
        have hs : s = ⟨t.entries.size⟩ := congrArg TypeRef.mk hs
        simp [hs]
      case isFalse hs =>
        have hne : ⟨t.entries.size⟩ ≠ s := fun heq => hs (heq ▸ rfl)
        simp [hne, hnew s]
    · have hlookup : List.lookup type' ((type, ⟨t.entries.size⟩) :: t.index) =
          t.index.lookup type' := by
        rw [List.lookup_cons, beq_false_of_ne htype]
      rw [hlookup, hget, h]
      split
      case isTrue hs =>
        have hnone : t.get? s = none := by simp [get?, hs]
        simp [hnone, Ne.symm htype]
      case isFalse => rfl

theorem get?_intern (h : t.Interned) (type : IrType) :
    (t.intern type).2.get? (t.intern type).1 = some type :=
  (h.intern type type _).mp (lookup_intern rfl)

theorem of_steps (h : Steps .empty t) : t.Interned :=
  h.extends.keeps (fun _ type ht => ht.intern type) .empty

theorem eq_iff_tree?_eq (h : t.Interned) (hordered : t.Ordered) (hr : t.Has r) (hs : t.Has s) :
    ∃ a b, t.tree? r = some a ∧ t.tree? s = some b ∧ (r = s ↔ a = b) := by
  obtain ⟨a, ha⟩ := hordered.exists_tree? hr
  obtain ⟨b, hb⟩ := hordered.exists_tree? hs
  refine ⟨a, b, ha, hb, ?_, ?_⟩
  · rintro rfl
    exact Option.some.inj (ha.symm.trans hb)
  · rintro rfl
    exact eq_of_treeWithin_eq (fun _ _ _ hr hs => h.eq_of_get? hr hs) ha hb

end Interned

/-- In a table that started empty, the index and the entries are inverse to each other. A type that
is there is found and nothing changes, a new one is put at the end, and what a reference has been
given for stays. When components come before the types they are part of, references are the same
exactly when they denote the same tree. -/
theorem steps_interned (h : Steps .empty t) :
    (∀ type r, t.index.lookup type = some r ↔ t.get? r = some type) ∧
    (∀ r s type, t.get? r = some type → t.get? s = some type → r = s) ∧
    (∀ type r, t.get? r = some type → t.intern type = (r, t)) ∧
    (∀ type, (∀ r, t.get? r ≠ some type) → t.intern type =
      (⟨t.entries.size⟩, ⟨t.entries.push type, (type, ⟨t.entries.size⟩) :: t.index⟩)) ∧
    (∀ type, (t.intern type).2.get? (t.intern type).1 = some type) ∧
    (∀ t', Steps t t' → ∀ r type, t.get? r = some type → t'.get? r = some type) ∧
    (t.Ordered → ∀ r s, t.Has r → t.Has s →
      ∃ a b, t.tree? r = some a ∧ t.tree? s = some b ∧ (r = s ↔ a = b)) := by
  have hinterned : t.Interned := .of_steps h
  refine ⟨hinterned, fun r s type => hinterned.eq_of_get?, fun type r => hinterned.intern_of_get?,
    fun type => hinterned.intern_of_forall_ne, hinterned.get?_intern, ?_, ?_⟩
  · intro t' hlater r type hr
    exact get_eq_ok_iff.mp (hlater.extends.get (get_eq_ok_iff.mpr hr))
  · exact fun hordered r s hr hs => hinterned.eq_iff_tree?_eq hordered hr hs

/-- The comparison asks for bits and a vector of them. -/
def internEdits : List Edit :=
  [.intern (.int 32), .intern (.vector 4 ⟨5⟩ false), .addParam ⟨6⟩ .anonymous,
    .addInst (.icmp .eq (.param ⟨0⟩) (.param ⟨0⟩)) .anonymous, .intern (.array 3 ⟨8⟩)]

def internedTable : TypeTable :=
  match Graph.empty.run internEdits with
  | .ok g => g.types
  | .error _ => .empty

theorem steps_internedTable : Steps .empty internedTable := by
  have hrun : Graph.empty.run internEdits = .ok _ := rfl
  have hfirst : Steps .empty .initial :=
    steps_internAll .empty [.void, .label, .token, .metadata, .pointer 0]
  exact hfirst.trans (steps_run hrun)

/-- The vector of bits is found when it is asked for by name, stays, and is another tree than the
vector that was compared. -/
theorem internedTable_interned :
    internedTable.intern (.vector 4 ⟨7⟩ false) = (⟨8⟩, internedTable) ∧
      (internedTable.intern (.int 64)).1 = ⟨10⟩ ∧
      (∀ t', Steps internedTable t' → t'.get? ⟨8⟩ = some (.vector 4 ⟨7⟩ false)) ∧
      ∃ a b, internedTable.tree? ⟨8⟩ = some a ∧ internedTable.tree? ⟨6⟩ = some b ∧ a ≠ b := by
  obtain ⟨hinverse, -, hfound, hnew, -, hkept, htrees⟩ := steps_interned steps_internedTable
  have hbits : internedTable.get? ⟨8⟩ = some (.vector 4 ⟨7⟩ false) := rfl
  have hwide : ∀ r, internedTable.get? r ≠ some (.int 64) := by
    intro r hr
    cases (hinverse _ r).mpr hr
  refine ⟨hfound _ _ hbits, ?_, fun t' h => hkept t' h _ _ hbits, ?_⟩
  · rw [hnew _ hwide]
    rfl
  · obtain ⟨a, b, ha, hb, hiff⟩ := htrees (by decide) ⟨8⟩ ⟨6⟩ (by decide) (by decide)
    exact ⟨a, b, ha, hb, fun hab => absurd (hiff.mpr hab) (by decide)⟩

end TypeTable

end IrGraph
