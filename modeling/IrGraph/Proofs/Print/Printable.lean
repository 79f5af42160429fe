import Mathlib.Logic.Relation
import IrGraph.Proofs.Print.Items
import IrGraph.Proofs.Print.Lines
import IrGraph.Proofs.Types.Text

/-! Functions that can be printed, and how many lines they take. When everything that printing gets
to is there and nothing stands inside itself, printing has as many levels to go as it can need, and
every line of the function comes out whole. -/

namespace IrGraph

section Levels

variable {α : Type} {R : α → α → Prop} {P : Nat → α → Prop}

/-- What needs one level more than the things inside it needs no more levels than there are things
with something inside, as long as nothing is inside itself. -/
theorem level_of_acyclic [DecidableEq α] {cells : List α} {a : α}
    (hcells : ∀ b c, Relation.ReflTransGen R a b → R b c → b ∈ cells)
    (hacyclic : ∀ b, Relation.ReflTransGen R a b → ¬Relation.TransGen R b b)
    (hstep : ∀ n b, Relation.ReflTransGen R a b → (∀ c, R b c → P n c) → P (n + 1) b) :
    P (cells.length + 1) a := by
  generalize hlength : cells.length = n
  induction n generalizing a cells with
  | zero =>
    obtain rfl := List.length_eq_zero_iff.mp hlength
    exact hstep 0 a .refl fun c hc => absurd (hcells a c .refl hc) List.not_mem_nil
  | succ n ih =>
    refine hstep (n + 1) a .refl fun c hc => ?_
    have ha : a ∈ cells := hcells a c .refl hc
    -- Nothing gets back to where it started, so one place fewer is left for what is inside.
    have hrest (b d : α) (hb : Relation.ReflTransGen R c b) (hd : R b d) : b ∈ cells.erase a := by
      have hne : b ≠ a := by
        rintro rfl
        exact hacyclic b .refl (.head' hc hb)
      exact (List.mem_erase_of_ne hne).mpr (hcells b d (.head hc hb) hd)
    exact ih hrest (fun b hb => hacyclic b (.head hc hb)) (fun m b hb => hstep m b (.head hc hb))
      (by rw [List.length_erase_of_mem ha, hlength, Nat.add_sub_cancel])

end Levels

/-- Zero for what is printed within a line, else how far above that an item is. -/
def Item.level : Item → Nat
  | .type _ | .known _ | .typed _ | .operand _ => 0
  | .param _ | .inst _ | .term _ | .order _ => 1
  | .block _ => 2
  | .func _ => 3

section Level

variable {t : TypeTable}

theorem ConstExpr.level_items {e : ConstExpr} : ∀ p ∈ e.items, p.level = 0 := by
  cases e <;> simp [items, parts, Item.level]

theorem Constant.level_items {c : Constant} : ∀ p ∈ c.items, p.level = 0 := by
  cases c with
  | expr e => exact ConstExpr.level_items
  | _ => simp [items, Item.level]

theorem Instruction.level_items {kind : Instruction} : ∀ p ∈ kind.items t, p.level = 0 := by
  cases kind <;> simp only [items, callItems, List.forall_mem_cons, List.forall_mem_append,
    List.forall_mem_map, List.forall_mem_flatMap, List.not_mem_nil, false_implies, Item.level,
    implies_true, and_self]

theorem Terminator.level_items {kind : Terminator} : ∀ p ∈ kind.items t, p.level = 0 := by
  cases kind <;> simp only [items, callItems, List.forall_mem_cons, List.forall_mem_append,
    List.forall_mem_map, List.forall_mem_flatMap, List.not_mem_nil, false_implies, Item.level,
    implies_true, and_self]

theorem Inst.level_items {x : Inst} : ∀ p ∈ x.items t, p.level = 0 := by
  unfold items
  split
  · simp
  · exact List.forall_mem_cons.mpr ⟨rfl, Instruction.level_items⟩

theorem Term.level_items {x : Term} : ∀ p ∈ x.items t, p.level = 0 :=
  List.forall_mem_cons.mpr ⟨rfl, Terminator.level_items⟩

theorem Block.level_items {x : Block} : ∀ p ∈ x.items, p.level = 1 := by
  simp [items, or_imp, forall_and, Item.level]

theorem Func.level_items {x : Func} : ∀ p ∈ x.items t, p.level ≤ 2 := by
  simp only [items, List.forall_mem_append, List.forall_mem_map]
  refine ⟨⟨⟨?_, ?_⟩, ?_⟩, ?_⟩
  · split <;> simp [Item.level]
  · simp [Item.level]
  · simp [Item.level]
  · split <;> simp [or_imp, forall_and, Item.level]

theorem forall_mem_elim {α : Type} {x? : Option α} {f : α → List Item} {P : Item → Prop}
    (h : ∀ x, ∀ p ∈ f x, P p) : ∀ p ∈ x?.elim [] f, P p := by
  cases x? with
  | none => simp
  | some x => exact h x

end Level

namespace Graph

variable {g : Graph} {p q : Item} {r : TypeRef} {v : Value}

/-- The second item stands directly in the first. -/
def Holds (g : Graph) (p q : Item) : Prop :=
  q ∈ g.itemsIn p

/-- All that printing an item gets to is there, and nothing of it stands inside itself. -/
structure Printable (g : Graph) (p : Item) : Prop where
  has : ∀ q, Relation.ReflTransGen g.Holds p q → g.has q
  acyclic : ∀ q, Relation.ReflTransGen g.Holds p q → ¬Relation.TransGen g.Holds q q

/-- The second type is a component of the first. -/
def TypeHolds (g : Graph) (r s : TypeRef) : Prop :=
  g.Holds (.type r) (.type s)

/-- The second operand is printed where the first stands. -/
def Inside (g : Graph) (v w : Value) : Prop :=
  g.Holds (.operand v) (.operand w) ∨ g.Holds (.operand v) (.typed w)

def typeRefs (g : Graph) : List TypeRef :=
  (List.range g.types.entries.size).map TypeRef.mk

/-- The operands that others can stand in. -/
def nestingValues (g : Graph) : List Value :=
  g.consts.refs.map .const ++ g.metadata.refs.map .metadata

theorem length_typeRefs (g : Graph) : g.typeRefs.length = g.types.entries.size := by
  simp [typeRefs]

theorem length_nestingValues (g : Graph) :
    g.nestingValues.length = g.consts.size + g.metadata.size := by
  simp [nestingValues, Arena.refs]

theorem mem_typeRefs (h : g.has (.type r)) : r ∈ g.typeRefs := by
  obtain ⟨type, htype⟩ := Option.isSome_iff_exists.mp h
  have hlt : r.index < g.types.entries.size := (Array.getElem?_eq_some_iff.mp htype).1
  exact List.mem_map.mpr ⟨r.index, List.mem_range.mpr hlt, rfl⟩

theorem mem_nestingValues {w : Value} (h : g.has (.operand v)) (hw : g.Inside v w) :
    v ∈ g.nestingValues := by
  cases v with
  | const c =>
    obtain ⟨x, hx⟩ := Option.isSome_iff_exists.mp h
    have hc : c ∈ g.consts.refs := Arena.mem_refs_of_get (Arena.get_eq_ok_iff.mpr hx)
    simp [nestingValues, hc]
  | metadata m =>
    obtain ⟨x, hx⟩ := Option.isSome_iff_exists.mp h
    have hm : m ∈ g.metadata.refs := Arena.mem_refs_of_get (Arena.get_eq_ok_iff.mpr hx)
    simp [nestingValues, hm]
  | _ => rcases hw with hw | hw <;> cases hw

theorem exists_valueType (h : g.has (.operand v)) : ∃ type, g.valueType v = .ok type := by
  cases v with
  | const c => cases hc : g.consts.get? c <;> exact ⟨_, by rw [valueType, hc]⟩
  | param | inst | term =>
    obtain ⟨x, hx⟩ := Option.isSome_iff_exists.mp h
    exact ⟨x.type, by rw [valueType, Arena.get_eq_ok_iff.mpr hx]; rfl⟩
  | _ => exact ⟨_, rfl⟩

/-- What stands in an item is a level below it, or both are printed within a line. -/
theorem level_le_of_holds (h : g.Holds p q) : q.level ≤ p.level - 1 := by
  have hzero {l : List Item} (hl : ∀ q ∈ l, q.level = 0) (hq : q ∈ l) : q.level ≤ p.level - 1 := by
    rw [hl q hq]
    exact Nat.zero_le _
  cases p with
  | known => cases h
  | type | param | order => exact hzero (forall_mem_elim fun x => by simp [Item.level]) h
  | typed => exact hzero (by simp [itemsIn, Item.level]) h
  | operand v =>
    cases v with
    | const => exact hzero (forall_mem_elim fun x => Constant.level_items) h
    | metadata =>
      rw [Holds, itemsIn] at h
      split at h
      · exact hzero (by simp [Item.level]) h
      · cases h
    | _ => cases h
  | inst => exact hzero (forall_mem_elim fun x => Inst.level_items) h
  | term => exact hzero (forall_mem_elim fun x => Term.level_items) h
  | block => exact Nat.le_of_eq (forall_mem_elim (fun x => Block.level_items) q h)
  | func => exact forall_mem_elim (fun x => Func.level_items) q h

namespace Printable

theorem has_self (h : g.Printable p) : g.has p :=
  h.has p .refl

theorem of_reaches (h : g.Printable p) (hq : Relation.ReflTransGen g.Holds p q) :
    g.Printable q where
  has s hs := h.has s (hq.trans hs)
  acyclic s hs := h.acyclic s (hq.trans hs)

theorem of_holds (h : g.Printable p) (hq : g.Holds p q) : g.Printable q :=
  h.of_reaches (.single hq)

theorem shows_known (h : g.Printable (.known r)) : g.Shows g.operandDoc (.known r) := by
  obtain ⟨type, htype⟩ := Option.isSome_iff_exists.mp h.has_self
  exact ⟨type, TypeTable.get_eq_ok_iff.mpr htype⟩

theorem shows_type (h : g.Printable (.type r)) : g.Shows g.operandDoc (.type r) := by
  have hprintable {s : TypeRef} (hs : Relation.ReflTransGen g.TypeHolds r s) :
      g.Printable (.type s) := h.of_reaches (hs.lift Item.type fun _ _ hc => hc)
  have hlevel := level_of_acyclic (R := g.TypeHolds) (a := r)
    (P := fun depth s => ∃ text, g.types.textWithin depth s = .ok text)
    (fun s c hs hc => mem_typeRefs (hprintable hs).has_self)
    (fun s hs hcycle => (hprintable hs).acyclic _ .refl (hcycle.lift Item.type fun _ _ hc => hc))
    fun depth s hs hinner => ?_
  · rwa [length_typeRefs] at hlevel
  · obtain ⟨type, htype⟩ := Option.isSome_iff_exists.mp (hprintable hs).has_self
    refine TypeTable.exists_textWithin_succ_iff.mpr ⟨type, htype, fun c hc => hinner c ?_⟩
    simpa [TypeHolds, Holds, itemsIn, htype] using hc

theorem shows_typed {operand : Printer} (h : g.Printable (.typed v))
    (hv : ∃ d, operand v = .ok d) : g.Shows operand (.typed v) := by
  have hoperand : g.Printable (.operand v) := h.of_holds List.mem_cons_self
  obtain ⟨type, htype⟩ := exists_valueType hoperand.has_self
  have hholds : g.Holds (.typed v) (.type type) := by
    simp [Holds, itemsIn, htype, Except.toOption]
  exact exists_typed_iff.mpr ⟨type, htype, (h.of_holds hholds).shows_type, hv⟩

theorem shows_operand (h : g.Printable (.operand v)) : g.Shows g.operandDoc (.operand v) := by
  have hinside {v w : Value} (hw : g.Inside v w) :
      Relation.TransGen g.Holds (.operand v) (.operand w) := by
    rcases hw with hw | hw
    · exact .single hw
    · exact .tail (.single hw) List.mem_cons_self
  have hprintable {w : Value} (hw : Relation.ReflTransGen g.Inside v w) :
      g.Printable (.operand w) :=
    h.of_reaches (hw.lift' Item.operand fun _ _ hc => (hinside hc).to_reflTransGen)
  have hlevel := level_of_acyclic (R := g.Inside) (a := v)
    (P := fun depth w => ∃ d, g.operandWithin depth w = .ok d)
    (fun w c hw hc => mem_nestingValues (hprintable hw).has_self hc)
    (fun w hw hcycle => (hprintable hw).acyclic _ .refl
      (hcycle.lift' Item.operand fun _ _ hc => hinside hc))
    fun depth w hw hinner => ?_
  · rwa [length_nestingValues] at hlevel
  · refine exists_operandWithin_succ_iff.mpr ⟨(hprintable hw).has_self, fun p hp => ?_⟩
    have hp' : g.Printable p := (hprintable hw).of_holds hp
    cases p with
    | type r => exact hp'.shows_type
    | known r => exact hp'.shows_known
    | typed x => exact hp'.shows_typed (hinner x (.inr hp))
    | operand x => exact hinner x (.inl hp)
    | _ => exact absurd (level_le_of_holds hp) (by simp [Item.level])

theorem shows_of_level_eq_zero (h : g.Printable p) (hp : p.level = 0) :
    g.Shows g.operandDoc p := by
  cases p with
  | type r => exact h.shows_type
  | known r => exact h.shows_known
  | typed v => exact h.shows_typed (h.of_holds List.mem_cons_self).shows_operand
  | operand v => exact h.shows_operand
  | _ => cases hp

/-- Whatever is printable can be printed, up to blocks. -/
theorem shows (h : g.Printable p) (hp : p.level < 3) : g.Shows g.operandDoc p := by
  generalize hlevel : p.level = level
  induction level using Nat.strongRecOn generalizing p with
  | ind level ih =>
    rcases Nat.eq_zero_or_pos level with rfl | hpos
    · exact h.shows_of_level_eq_zero hlevel
    · have hitems (q : Item) (hq : q ∈ g.itemsIn p) : g.Shows g.operandDoc q := by
        have hle := level_le_of_holds hq
        exact ih q.level (by omega) (h.of_holds hq) (by omega) rfl
      cases p with
      | inst => exact exists_instDoc_iff.mpr ⟨h.has_self, hitems⟩
      | term => exact exists_termDoc_iff.mpr ⟨h.has_self, hitems⟩
      | param => exact exists_paramDoc_iff.mpr ⟨h.has_self, hitems⟩
      | order => exact exists_useListOrderLine_iff.mpr ⟨h.has_self, hitems⟩
      | block => exact exists_blockLines_iff.mpr ⟨h.has_self, hitems⟩
      | func => exact absurd hp (Nat.lt_irrefl 3)
      | _ => exact absurd hpos (hlevel ▸ Nat.lt_irrefl 0)

end Printable

end Graph

end IrGraph
