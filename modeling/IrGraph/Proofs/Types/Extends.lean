import IrGraph.Graph.Typing
import IrGraph.Proofs.Steps

/-! Tables that grow. A table keeps what it has when types are asked for, so a type that could be
computed before comes out the same in the longer table, and nothing more is added to it. -/

namespace IrGraph

namespace TypeTable

/-- The table after some types have been asked for, one after another. -/
def internAll (t : TypeTable) (types : List IrType) : TypeTable :=
  types.foldl (fun t type => (t.intern type).2) t

/-- Nothing but asking for types leads from one table to the other. -/
def Extends (t t' : TypeTable) : Prop :=
  ∃ types, t' = t.internAll types

variable {t t' t'' mid : TypeTable} {r : TypeRef} {type : IrType}

theorem intern_of_lookup (h : t.index.lookup type = some r) : t.intern type = (r, t) := by
  rw [intern, h]

theorem lookup_intern (h : t.intern type = (r, t')) : t'.index.lookup type = some r := by
  unfold intern at h
  split at h
  case h_1 found hfound =>
    cases h
    exact hfound
  case h_2 =>
    cases h
    exact List.lookup_cons_self

theorem get?_intern_of_get? (h : t.get? r = some type) (new : IrType) :
    (t.intern new).2.get? r = some type := by
  unfold intern
  split
  case h_1 => exact h
  case h_2 =>
    have hlt : r.index < t.entries.size := (Array.getElem?_eq_some_iff.mp h).1
    change (t.entries.push new)[r.index]? = some type
    rw [Array.getElem?_push_lt hlt, ← Array.getElem?_eq_getElem hlt]
    exact h

theorem lookup_intern_of_lookup (h : t.index.lookup type = some r) (new : IrType) :
    (t.intern new).2.index.lookup type = some r := by
  unfold intern
  split
  case h_1 => exact h
  case h_2 hnone =>
    have hne : type ≠ new := by
      rintro rfl
      rw [hnone] at h
      cases h
    rw [List.lookup_cons, beq_false_of_ne hne]
    exact h

namespace Extends

theorem refl (t : TypeTable) : t.Extends t :=
  ⟨[], rfl⟩

theorem trans (h : t.Extends t') (h' : t'.Extends t'') : t.Extends t'' := by
  obtain ⟨types, rfl⟩ := h
  obtain ⟨types', rfl⟩ := h'
  exact ⟨types ++ types', List.foldl_append.symm⟩

theorem intern (h : t.intern type = (r, t')) : t.Extends t' :=
  ⟨[type], by rw [internAll, List.foldl_cons, h, List.foldl_nil]⟩

theorem keeps {P : TypeTable → Prop} (h : t.Extends t')
    (hstep : ∀ t type, P t → P (t.intern type).2) (ht : P t) : P t' := by
  obtain ⟨types, rfl⟩ := h
  induction types generalizing t with
  | nil => exact ht
  | cons type types ih => exact ih (hstep t type ht)

theorem get (h : t.Extends t') (hr : t.get r = .ok type) : t'.get r = .ok type := by
  rw [get_eq_ok_iff] at hr ⊢
  exact h.keeps (P := fun t => t.get? r = some type) (fun _ new hr => get?_intern_of_get? hr new) hr

theorem intern_again (h : mid.Extends t') (hr : t.intern type = (r, mid)) :
    t'.intern type = (r, t') := by
  refine intern_of_lookup ?_
  exact h.keeps (P := fun t => t.index.lookup type = some r)
    (fun _ new hr => lookup_intern_of_lookup hr new) (lookup_intern hr)

end Extends

end TypeTable

/-- Operands whose types the type of the result is computed from. -/
def Instruction.typeOperands : Instruction → List Value
  | .unary _ x | .binary _ x _ | .bitwise _ x _ | .insertElement x _ _ | .insertValue x _ _
  | .atomicrmw _ _ x _ | .select _ x _ | .extractElement x _ | .extractValue x _ | .icmp _ x _
  | .fcmp _ x _ => [x]
  | .shuffleVector x _ mask => [x, mask]
  | .cmpxchg _ expected _ _ _ => [expected]
  | .getElementPtr _ source _ _ => [source]
  | _ => []

/-- The instruction that does to the operands what a constant expression does. -/
def ConstExpr.instruction : ConstExpr → Instruction
  | .unary op x => .unary op x
  | .binary op x y => .binary op x y
  | .bitwise op x y => .bitwise op x y
  | .extractElement x index => .extractElement x index
  | .insertElement x elem index => .insertElement x elem index
  | .shuffleVector x y mask => .shuffleVector x y mask
  | .extractValue x path => .extractValue x path
  | .insertValue x elem path => .insertValue x elem path
  | .getElementPtr elemType source indices inBounds =>
    .getElementPtr elemType source indices inBounds
  | .conversion op x target => .conversion op x target
  | .icmp predicate x y => .icmp predicate x y
  | .fcmp predicate x y => .fcmp predicate x y
  | .select cond x y => .select cond x y

theorem ConstExpr.mem_parts_of_mem_typeOperands {e : ConstExpr} {v : Value}
    (h : v ∈ e.instruction.typeOperands) : v ∈ e.parts := by
  cases e <;> grind [instruction, Instruction.typeOperands, parts]

namespace Graph

variable {g g' : Graph} {v x mask : Value} {r type : TypeRef} {types : TypeTable}
  {kind : Instruction} {data : Constant}

section Added

theorem known_eq_ok {x : Except Fault TypeRef}
    (hk : (do return g.known (← x)) = Except.ok (type, types)) : x = .ok type ∧ types = g.types := by
  simp only [bind_eq_ok_iff, pure_eq_ok_iff] at hk
  obtain ⟨r, hr, hk⟩ := hk
  cases hk
  exact ⟨hr, rfl⟩

theorem comparisonType_extends (h : g.comparisonType v = .ok (type, types)) :
    g.types.Extends types := by
  unfold comparisonType at h
  generalize hone : g.types.intern (.int 1) = one at h
  obtain ⟨bit, mid⟩ := one
  have hbit : g.types.Extends mid := .intern hone
  simp only [bind_eq_ok_iff] at h
  obtain ⟨operand, -, ty, -, h⟩ := h
  split at h
  · exact hbit.trans (.intern (pure_eq_ok_iff.mp h))
  · cases pure_eq_ok_iff.mp h
    exact hbit

theorem shuffleType_extends (h : g.shuffleType x mask = .ok (type, types)) :
    g.types.Extends types := by
  simp only [shuffleType, bind_eq_ok_iff] at h
  obtain ⟨operand, -, elem, -, maskType, -, ty, -, h⟩ := h
  split at h
  · exact .intern (pure_eq_ok_iff.mp h)
  · exact (throw_ne_ok h).elim

theorem exchangeType_extends (h : g.exchangeType v = .ok (type, types)) :
    g.types.Extends types := by
  unfold exchangeType at h
  generalize hone : g.types.intern (.int 1) = one at h
  obtain ⟨bit, mid⟩ := one
  obtain ⟨found, -, h⟩ := bind_eq_ok_iff.mp h
  have hbit : g.types.Extends mid := .intern hone
  exact hbit.trans (.intern (pure_eq_ok_iff.mp h))

theorem instType_extends (h : g.instType kind = .ok (type, types)) : g.types.Extends types := by
  cases kind with
  | shuffleVector => exact shuffleType_extends h
  | cmpxchg => exact exchangeType_extends h
  | icmp | fcmp => exact comparisonType_extends h
  | alloca => exact .intern (pure_eq_ok_iff.mp h)
  | extractElement | extractValue =>
    obtain ⟨operand, -, h⟩ := bind_eq_ok_iff.mp h
    rw [(known_eq_ok h).2]
    exact .refl _
  | load | store | fence | comment | conversion | phi | vaArg | landingpad | catchpad
  | cleanuppad =>
    cases h
    exact .refl _
  | _ =>
    rw [(known_eq_ok h).2]
    exact .refl _

end Added

section Again

theorem vectorElem_again (h : g.types.Extends g'.types) (hr : g.vectorElem r = .ok type) :
    g'.vectorElem r = .ok type := by
  obtain ⟨ty, hty, hr⟩ := bind_eq_ok_iff.mp hr
  refine bind_eq_ok_iff.mpr ⟨ty, h.get hty, ?_⟩
  split at hr
  · exact hr
  · exact (bind_throw_ne_ok hr).elim

theorem funcResult_again (h : g.types.Extends g'.types) (hr : g.funcResult r = .ok type) :
    g'.funcResult r = .ok type := by
  obtain ⟨ty, hty, hr⟩ := bind_eq_ok_iff.mp hr
  refine bind_eq_ok_iff.mpr ⟨ty, h.get hty, ?_⟩
  split at hr
  · exact hr
  · exact (bind_throw_ne_ok hr).elim

theorem aggregateElem_again {path : List Nat} (h : g.types.Extends g'.types)
    (hr : g.aggregateElem r path = .ok type) : g'.aggregateElem r path = .ok type := by
  induction path generalizing r with
  | nil => exact hr
  | cons i path ih =>
    obtain ⟨ty, hty, hr⟩ := bind_eq_ok_iff.mp hr
    refine bind_eq_ok_iff.mpr ⟨ty, h.get hty, ?_⟩
    split at hr
    · exact ih hr
    · exact ih hr
    · split at hr
      · exact ih hr
      · exact (bind_throw_ne_ok hr).elim
    · exact (bind_throw_ne_ok hr).elim

theorem comparisonType_again (h : types.Extends g'.types)
    (hv : ∀ r, g.valueType v = .ok r → g'.valueType v = .ok r)
    (hc : g.comparisonType v = .ok (type, types)) : g'.comparisonType v = .ok (type, g'.types) := by
  unfold comparisonType at hc ⊢
  generalize hone : g.types.intern (.int 1) = one at hc
  obtain ⟨bit, mid⟩ := one
  obtain ⟨operand, hoperand, hc⟩ := bind_eq_ok_iff.mp hc
  obtain ⟨ty, hty, hc⟩ := bind_eq_ok_iff.mp hc
  split at hc
  case h_1 length elem scalable =>
    have hvector := pure_eq_ok_iff.mp hc
    have hmid : mid.Extends g'.types := .trans (.intern hvector) h
    rw [hmid.intern_again hone]
    refine bind_eq_ok_iff.mpr ⟨operand, hv operand hoperand, ?_⟩
    refine bind_eq_ok_iff.mpr ⟨_, hmid.get hty, ?_⟩
    exact congrArg Except.ok (h.intern_again hvector)
  case h_2 hscalar =>
    cases pure_eq_ok_iff.mp hc
    rw [h.intern_again hone]
    refine bind_eq_ok_iff.mpr ⟨operand, hv operand hoperand, ?_⟩
    refine bind_eq_ok_iff.mpr ⟨ty, h.get hty, ?_⟩
    split
    · exact (hscalar _ _ _ rfl).elim
    · rfl

theorem shuffleType_again (h : types.Extends g'.types)
    (hx : ∀ r, g.valueType x = .ok r → g'.valueType x = .ok r)
    (hmask : ∀ r, g.valueType mask = .ok r → g'.valueType mask = .ok r)
    (hs : g.shuffleType x mask = .ok (type, types)) :
    g'.shuffleType x mask = .ok (type, g'.types) := by
  have hall : g.types.Extends g'.types := (shuffleType_extends hs).trans h
  simp only [shuffleType, bind_eq_ok_iff] at hs ⊢
  obtain ⟨operand, hoperand, elem, helem, maskType, hmaskType, ty, hty, hs⟩ := hs
  refine ⟨operand, hx operand hoperand, elem, vectorElem_again hall helem, maskType,
    hmask maskType hmaskType, ty, hall.get hty, ?_⟩
  split at hs
  · exact congrArg Except.ok (h.intern_again (pure_eq_ok_iff.mp hs))
  · exact (throw_ne_ok hs).elim

theorem exchangeType_again (h : types.Extends g'.types)
    (hv : ∀ r, g.valueType v = .ok r → g'.valueType v = .ok r)
    (hc : g.exchangeType v = .ok (type, types)) : g'.exchangeType v = .ok (type, g'.types) := by
  unfold exchangeType at hc ⊢
  generalize hone : g.types.intern (.int 1) = one at hc
  obtain ⟨bit, mid⟩ := one
  obtain ⟨found, hfound, hc⟩ := bind_eq_ok_iff.mp hc
  have hpair := pure_eq_ok_iff.mp hc
  have hmid : mid.Extends g'.types := .trans (.intern hpair) h
  refine bind_eq_ok_iff.mpr ⟨found, hv found hfound, ?_⟩
  rw [hmid.intern_again hone]
  exact congrArg Except.ok (h.intern_again hpair)

theorem known_again {x x' : Except Fault TypeRef} (hx : x = .ok type → x' = .ok type)
    (hk : (do return g.known (← x)) = Except.ok (type, types)) :
    (do return g'.known (← x')) = Except.ok (type, g'.types) := by
  rw [hx (known_eq_ok hk).1]
  rfl

/-- The type of an instruction comes out the same in a graph whose table has all that was needed and
whose values have the types that were looked at. -/
theorem instType_again (h : types.Extends g'.types)
    (hkept : ∀ v ∈ kind.typeOperands, ∀ r, g.valueType v = .ok r → g'.valueType v = .ok r)
    (ht : g.instType kind = .ok (type, types)) : g'.instType kind = .ok (type, g'.types) := by
  have hall : g.types.Extends g'.types := (instType_extends ht).trans h
  cases kind with
  | shuffleVector x y mask =>
    exact shuffleType_again h (hkept x (by simp [Instruction.typeOperands]))
      (hkept mask (by simp [Instruction.typeOperands])) ht
  | cmpxchg pointer expected =>
    exact exchangeType_again h (hkept expected List.mem_cons_self) ht
  | icmp _ x | fcmp _ x => exact comparisonType_again h (hkept x List.mem_cons_self) ht
  | extractElement x index =>
    obtain ⟨operand, hoperand, ht⟩ := bind_eq_ok_iff.mp ht
    refine bind_eq_ok_iff.mpr ⟨operand, hkept x List.mem_cons_self operand hoperand, ?_⟩
    exact known_again (fun hr => vectorElem_again hall hr) ht
  | extractValue x path =>
    obtain ⟨operand, hoperand, ht⟩ := bind_eq_ok_iff.mp ht
    refine bind_eq_ok_iff.mpr ⟨operand, hkept x List.mem_cons_self operand hoperand, ?_⟩
    exact known_again (fun hr => aggregateElem_again hall hr) ht
  | alloca _ _ addrSpace =>
    have hpointer := h.intern_again (pure_eq_ok_iff.mp ht)
    exact congrArg Except.ok hpointer
  | call => exact known_again (fun hr => funcResult_again hall hr) ht
  | load | store | fence | comment | conversion | phi | vaArg | landingpad | catchpad
  | cleanuppad =>
    cases ht
    rfl
  | _ => exact known_again (fun hr => hkept _ List.mem_cons_self type hr) ht

end Again

section Constants

theorem exprType_eq_instType (g : Graph) (e : ConstExpr) : g.exprType e = g.instType e.instruction := by
  cases e <;> rfl

theorem constType_extends (h : g.constType data = .ok (type, types)) : g.types.Extends types := by
  cases data with
  | expr e =>
    rw [constType, exprType_eq_instType] at h
    exact instType_extends h
  | _ =>
    cases h
    exact .refl _

/-- The type of a constant comes out the same under the same conditions. -/
theorem constType_again (h : types.Extends g'.types)
    (hkept : ∀ v ∈ data.parts, ∀ r, g.valueType v = .ok r → g'.valueType v = .ok r)
    (ht : g.constType data = .ok (type, types)) : g'.constType data = .ok (type, g'.types) := by
  cases data with
  | expr e =>
    rw [constType, exprType_eq_instType] at ht ⊢
    exact instType_again h (fun v hv => hkept v (e.mem_parts_of_mem_typeOperands hv)) ht
  | _ =>
    cases ht
    rfl

end Constants

end Graph

end IrGraph
