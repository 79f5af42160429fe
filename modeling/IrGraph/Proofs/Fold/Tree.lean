import IrGraph.Graph.Fold
import IrGraph.Proofs.Arena
import IrGraph.Proofs.Edit.Run
import IrGraph.Proofs.Fold.Word

/-! Folding a tree of operators on integer literals. It ends with one literal, which is the value of
the tree, or leaves the constant alone; the second when some operator in it cannot be folded. -/

namespace IrGraph

inductive FoldTree
  | literal (value : Word)
  | binary (op : BinaryOp) (x y : FoldTree)
  deriving DecidableEq, Repr

namespace FoldTree

/-- The integer that a tree stands for, up to a multiple of `2 ^ bits`. -/
def value (bits : Nat) : FoldTree → Int
  | literal v => v.toInt
  | binary op x y => op.exact bits (x.value bits) (y.value bits)

/-- Every operator is one that is folded, and nothing is divided by zero. -/
def Folds (bits : Nat) : FoldTree → Prop
  | literal _ => True
  | binary op x y => x.Folds bits ∧ y.Folds bits ∧ op.Folds bits (y.value bits)

instance decidableFolds (bits : Nat) : (t : FoldTree) → Decidable (t.Folds bits)
  | literal _ => .isTrue trivial
  | binary op x y =>
    have := decidableFolds bits x
    have := decidableFolds bits y
    inferInstanceAs (Decidable (_ ∧ _ ∧ op.Folds bits (y.value bits)))

end FoldTree

namespace Graph

def ConstsInOrder (g : Graph) : Prop :=
  ∀ c stored, g.consts.get? c = some stored →
    ∀ d, Value.const d ∈ stored.data.parts → d.index < c.index

theorem constsInOrder_iff {g : Graph} :
    g.ConstsInOrder ↔ ∀ c ∈ g.consts.refs,
      ∀ d ∈ (g.consts.members (·.data.parts) c).filterMap Value.const?, d.index < c.index := by
  have hconst (v : Value) (d : ConstRef) : v.const? = some d ↔ v = .const d := by
    cases v <;> simp [Value.const?]
  simp only [List.mem_filterMap, hconst, exists_eq_right]
  constructor
  · intro h c _ d hd
    obtain ⟨stored, hc, hd⟩ := Arena.exists_of_mem_members hd
    exact h c stored hc d hd
  · intro h c stored hc d hd
    refine h c (Arena.mem_refs_of_get (Arena.get_eq_ok_iff.mpr hc)) d ?_
    rwa [Arena.members_of_get? hc]

instance (g : Graph) : Decidable g.ConstsInOrder :=
  decidable_of_iff _ constsInOrder_iff.symm

/-- The tree of a constant that is made of integer literals of `bits` bits. -/
inductive Unfolds (g : Graph) (bits : Nat) : ConstRef → FoldTree → Prop
  | literal {c : ConstRef} {type stored : TypeRef} {v : Word}
      (hc : g.consts.get? c = some ⟨.int type v, stored⟩)
      (htype : g.types.get? type = some (.int bits)) : Unfolds g bits c (.literal v)
  | binary {c x y : ConstRef} {op : BinaryOp} {stored : TypeRef} {s t : FoldTree}
      (hc : g.consts.get? c = some ⟨.expr (.binary op (.const x) (.const y)), stored⟩)
      (hx : Unfolds g bits x s) (hy : Unfolds g bits y t) : Unfolds g bits c (.binary op s t)

/-- The constants of `g` are in `g'`, and only constants are new there. -/
structure AddsConsts (g g' : Graph) : Prop where
  rest : g' = { g with consts := g'.consts }
  kept : ∀ c stored, g.consts.get? c = some stored → g'.consts.get? c = some stored

variable {g g' g'' : Graph} {bits : Nat} {c c' x y : ConstRef} {op : BinaryOp} {t s : FoldTree}

theorem Unfolds.exists_stored (h : g.Unfolds bits c t) :
    ∃ stored, g.consts.get? c = some stored := by
  cases h with
  | literal hc => exact ⟨_, hc⟩
  | binary hc => exact ⟨_, hc⟩

namespace AddsConsts

theorem refl (g : Graph) : AddsConsts g g :=
  ⟨rfl, fun _ _ h => h⟩

theorem trans (h : AddsConsts g g') (h' : AddsConsts g' g'') : AddsConsts g g'' := by
  refine ⟨?_, fun c stored hc => h'.kept c stored (h.kept c stored hc)⟩
  rw [h'.rest, h.rest]

theorem types (h : AddsConsts g g') : g'.types = g.types := by
  rw [h.rest]

end AddsConsts

theorem addConst_int (g : Graph) (type : TypeRef) (w : Word) :
    ∃ c g', g.addConst (.int type w) = .ok (c, g') ∧ AddsConsts g g' ∧
      g'.consts.get? c = some ⟨.int type w, type⟩ := by
  refine ⟨_, _, rfl, ⟨rfl, fun d stored hd => ?_⟩, ?_⟩
  · have hne : d ≠ g.consts.next := by
      rintro rfl
      simp [Arena.get?_next] at hd
    simp [Arena.get?_push, hne, hd]
  · simp [Arena.get?_push]

/-- How folding the constant `c` with the tree `t` ends. -/
inductive Folded (g : Graph) (bits : Nat) (c : ConstRef) : FoldTree → ConstRef → Prop
  | literal {type stored : TypeRef} {v : Word}
      (hc : g.consts.get? c = some ⟨.int type v, stored⟩)
      (htype : g.types.get? type = some (.int bits)) : Folded g bits c (.literal v) c
  | folded {op : BinaryOp} {s t : FoldTree} {c' : ConstRef} {type : TypeRef} {w : Word}
      (hfolds : (FoldTree.binary op s t).Folds bits)
      (hc' : g.consts.get? c' = some ⟨.int type w, type⟩)
      (htype : g.types.get? type = some (.int bits))
      (hw : w.toInt = ((FoldTree.binary op s t).value bits).bmod (2 ^ bits)) :
      Folded g bits c (.binary op s t) c'
  | kept {op : BinaryOp} {s t : FoldTree} {e : ConstExpr} {stored : TypeRef}
      (hfolds : ¬(FoldTree.binary op s t).Folds bits)
      (hc : g.consts.get? c = some ⟨.expr e, stored⟩) : Folded g bits c (.binary op s t) c

namespace Folded

theorem mono (h : Folded g bits c t c') (hadds : AddsConsts g g') : Folded g' bits c t c' := by
  cases h with
  | literal hc htype => exact .literal (hadds.kept _ _ hc) (hadds.types ▸ htype)
  | folded hfolds hc' htype hw =>
    exact .folded hfolds (hadds.kept _ _ hc') (hadds.types ▸ htype) hw
  | kept hfolds hc => exact .kept hfolds (hadds.kept _ _ hc)

theorem exists_literal (h : Folded g bits c t c') (hfolds : t.Folds bits) :
    ∃ type v stored, g.consts.get? c' = some ⟨.int type v, stored⟩ ∧
      g.types.get? type = some (.int bits) ∧
      v.toInt.bmod (2 ^ bits) = (t.value bits).bmod (2 ^ bits) := by
  cases h with
  | literal hc htype => exact ⟨_, _, _, hc, htype, rfl⟩
  | folded _ hc' htype hw => exact ⟨_, _, _, hc', htype, by rw [hw, Int.bmod_bmod]⟩
  | kept hnot => exact (hnot hfolds).elim

theorem exists_stored (h : Folded g bits c t c') : ∃ stored, g.consts.get? c' = some stored := by
  cases h with
  | literal hc => exact ⟨_, hc⟩
  | folded _ hc' => exact ⟨_, hc'⟩
  | kept _ hc => exact ⟨_, hc⟩

theorem exists_expr (h : Folded g bits c t c') (hfolds : ¬t.Folds bits) :
    ∃ e stored, g.consts.get? c' = some ⟨.expr e, stored⟩ := by
  cases h with
  | literal => exact (hfolds trivial).elim
  | folded hf => exact (hfolds hf).elim
  | kept _ hc => exact ⟨_, _, hc⟩

end Folded

section Step

/-- What becomes of `c`, an operator on constants that have become `x` and `y`. -/
def foldOperands (g : Graph) (op : BinaryOp) (c x y : ConstRef) :
    Except Fault (ConstRef × Graph) := do
  match ← g.foldLiterals op (← g.consts.get x).data (← g.consts.get y).data with
  | some literal => g.addConst literal
  | none => return (c, g)

variable {stored sx sy : StoredConstant} {x' y' : ConstRef} {depth : Nat}

theorem simplifyWithin_leaf (hc : g.consts.get? c = some stored)
    (hleaf : ∀ op x y, stored.data ≠ .expr (.binary op (.const x) (.const y))) :
    g.simplifyWithin (depth + 1) c = .ok (c, g) := by
  rw [simplifyWithin, Arena.get_eq_ok_iff.mpr hc]
  simp only [bind, Except.bind]
  rfl

theorem simplifyWithin_binary (hc : g.consts.get? c = some stored)
    (hdata : stored.data = .expr (.binary op (.const x) (.const y)))
    (hx : g.simplifyWithin depth x = .ok (x', g')) (hy : g'.simplifyWithin depth y = .ok (y', g'')) :
    g.simplifyWithin (depth + 1) c = g''.foldOperands op c x' y' := by
  rw [simplifyWithin, Arena.get_eq_ok_iff.mpr hc]
  simp only [bind, Except.bind, hdata, hx, hy]
  rfl

theorem foldOperands_eq (hx : g.consts.get? x = some sx) (hy : g.consts.get? y = some sy)
    {folded : Option Constant} (h : g.foldLiterals op sx.data sy.data = .ok folded) :
    g.foldOperands op c x y = folded.elim (.ok (c, g)) g.addConst := by
  rw [foldOperands, Arena.get_eq_ok_iff.mpr hx, Arena.get_eq_ok_iff.mpr hy]
  change (do
    match ← g.foldLiterals op sx.data sy.data with
    | some literal => g.addConst literal
    | none => return (c, g)) = _
  rw [h]
  cases folded <;> rfl

theorem foldLiterals_int {type other : TypeRef} {a b : Word}
    (htype : g.types.get? type = some (.int bits)) :
    g.foldLiterals op (.int type a) (.int other b) =
      .ok ((foldInt op bits a b).map (.int type)) := by
  simp [foldLiterals, TypeTable.intBits?, TypeTable.get_eq_ok_iff.mpr htype, bind, Except.bind, pure,
    Except.pure]

theorem foldLiterals_expr_left (e : ConstExpr) (data : Constant) :
    g.foldLiterals op (.expr e) data = .ok none := by
  cases data <;> rfl

theorem foldLiterals_expr_right (data : Constant) (e : ConstExpr) :
    g.foldLiterals op data (.expr e) = .ok none := by
  cases data <;> rfl

end Step

section Simulation

variable (hpos : 0 < bits) (hle : bits ≤ 128)
include hpos hle

theorem exists_foldOperands {stored : TypeRef} {x' y' : ConstRef}
    (hc : g.consts.get? c = some ⟨.expr (.binary op (.const x) (.const y)), stored⟩)
    (hx : Folded g bits x s x') (hy : Folded g bits y t y') :
    ∃ c' g', g.foldOperands op c x' y' = .ok (c', g') ∧ AddsConsts g g' ∧
      Folded g' bits c (.binary op s t) c' := by
  obtain ⟨sx, hsx⟩ := hx.exists_stored
  obtain ⟨sy, hsy⟩ := hy.exists_stored
  have hkept (hnone : g.foldLiterals op sx.data sy.data = .ok none)
      (hfolds : ¬(FoldTree.binary op s t).Folds bits) :
      ∃ c' g', g.foldOperands op c x' y' = .ok (c', g') ∧ AddsConsts g g' ∧
        Folded g' bits c (.binary op s t) c' :=
    ⟨c, g, foldOperands_eq hsx hsy hnone, .refl g, .kept hfolds hc⟩
  by_cases hs : s.Folds bits
  case neg =>
    obtain ⟨e, _, he⟩ := hx.exists_expr hs
    obtain rfl := Option.some.inj (hsx.symm.trans he)
    exact hkept (foldLiterals_expr_left e _) fun h => hs h.1
  by_cases ht : t.Folds bits
  case neg =>
    obtain ⟨e, _, he⟩ := hy.exists_expr ht
    obtain rfl := Option.some.inj (hsy.symm.trans he)
    exact hkept (foldLiterals_expr_right _ e) fun h => ht h.2.1
  obtain ⟨type, a, _, ha, htype, hav⟩ := hx.exists_literal hs
  obtain ⟨other, b, _, hb, -, hbv⟩ := hy.exists_literal ht
  obtain rfl := Option.some.inj (hsx.symm.trans ha)
  obtain rfl := Option.some.inj (hsy.symm.trans hb)
  have hliterals : g.foldLiterals op (.int type a) (.int other b) = _ := foldLiterals_int htype
  by_cases hop : op.Folds bits (t.value bits)
  · obtain ⟨w, hfold, hw⟩ := foldInt_of_folds hpos hle hbv hav hop
    obtain ⟨c', g', hadd, hadds, hc'⟩ := g.addConst_int type w
    rw [hfold] at hliterals
    refine ⟨c', g', ?_, hadds, .folded ⟨hs, ht, hop⟩ hc' (hadds.types ▸ htype) hw⟩
    rw [foldOperands_eq hsx hsy hliterals]
    exact hadd
  · rw [foldInt_of_not_folds hpos hle hbv hop] at hliterals
    exact hkept hliterals fun h => hop h.2.2

theorem simplifyWithin_unfolds (hback : g.ConstsInOrder) (ht : g.Unfolds bits c t) {h : Graph}
    {depth : Nat} (hadds : AddsConsts g h) (hdepth : c.index < depth) :
    ∃ c' h', h.simplifyWithin depth c = .ok (c', h') ∧ AddsConsts h h' ∧
      Folded h' bits c t c' := by
  induction ht generalizing h depth with
  | @literal c type stored v hc htype =>
    obtain ⟨depth, rfl⟩ : ∃ d, depth = d + 1 := ⟨depth - 1, by omega⟩
    have hstill := hadds.kept _ _ hc
    refine ⟨c, h, ?_, .refl h, .literal hstill (hadds.types ▸ htype)⟩
    rw [simplifyWithin, Arena.get_eq_ok_iff.mpr hstill]
    rfl
  | @binary c x y op stored s t hc hx hy ihx ihy =>
    obtain ⟨depth, rfl⟩ : ∃ d, depth = d + 1 := ⟨depth - 1, by omega⟩
    have hxc : x.index < c.index := hback c _ hc x (by simp [Constant.parts, ConstExpr.parts])
    have hyc : y.index < c.index := hback c _ hc y (by simp [Constant.parts, ConstExpr.parts])
    obtain ⟨x', h₁, hx', hadds₁, hfx⟩ := ihx hadds (by omega : x.index < depth)
    obtain ⟨y', h₂, hy', hadds₂, hfy⟩ := ihy (hadds.trans hadds₁) (by omega : y.index < depth)
    have hstill := hadds.kept _ _ hc
    have hstill₂ := (hadds₁.trans hadds₂).kept _ _ hstill
    obtain ⟨c', h', hfold, hadds', hf⟩ :=
      exists_foldOperands hpos hle hstill₂ (hfx.mono hadds₂) hfy
    refine ⟨c', h', ?_, (hadds₁.trans hadds₂).trans hadds', hf⟩
    rw [simplifyWithin_binary hstill rfl hx' hy', hfold]

end Simulation

section Main

/-- A tree of operators on literals of `bits` bits is folded to a literal exactly when each operator
is addition, subtraction, multiplication or division and no divisor is zero. The literal is the
value of the tree as a signed number of `bits` bits; else the constant stays as it is. -/
theorem simplify_eq_value (hback : g.ConstsInOrder) (hpos : 1 ≤ bits) (hle : bits ≤ 128)
    (ht : g.Unfolds bits c (.binary op s t)) :
    ∃ c' g', g.simplify c = .ok (c', g') ∧
      ((∃ type w, g'.consts.get? c' = some ⟨.int type w, type⟩ ∧
        g'.types.get? type = some (.int bits)) ↔ (FoldTree.binary op s t).Folds bits) ∧
      ((FoldTree.binary op s t).Folds bits → ∃ type w,
        g'.consts.get? c' = some ⟨.int type w, type⟩ ∧ g'.types.get? type = some (.int bits) ∧
        w.toInt = ((FoldTree.binary op s t).value bits).bmod (2 ^ bits) ∧
        -2 ^ (bits - 1) ≤ w.toInt ∧ w.toInt < 2 ^ (bits - 1)) ∧
      (¬(FoldTree.binary op s t).Folds bits → c' = c) := by
  have hdepth : c.index < g.consts.size + 1 := by
    obtain ⟨stored, hc⟩ := ht.exists_stored
    exact Nat.lt_succ_of_lt (Arena.index_lt_of_get? hc)
  obtain ⟨c', g', hsimp, -, hfolded⟩ :=
    simplifyWithin_unfolds hpos hle hback ht (.refl g) hdepth
  refine ⟨c', g', hsimp, ?_⟩
  cases hfolded with
  | @folded op s t c' type w hfolds hc' htype hw =>
    have hrange := bmod_mem_range hpos ((FoldTree.binary op s t).value bits)
    rw [← hw] at hrange
    refine ⟨iff_of_true ⟨type, w, hc', htype⟩ hfolds, fun _ => ?_, fun h => (h hfolds).elim⟩
    exact ⟨type, w, hc', htype, hw, hrange⟩
  | kept hfolds hc =>
    refine ⟨iff_of_false ?_ hfolds, fun h => (hfolds h).elim, fun _ => rfl⟩
    rintro ⟨type, w, hw, -⟩
    simp [hc] at hw

/-- Constants of eight bits. The third divides the least one by -1, the eighth divides by 256. -/
def foldRun : List Edit :=
  [.intern (.int 8), .addInt ⟨5⟩ 300, .addInt ⟨5⟩ (-128), .addInt ⟨5⟩ (-1),
    .addConst (.expr (.binary .sdiv (.const ⟨1⟩) (.const ⟨2⟩))),
    .addConst (.expr (.binary .udiv (.const ⟨2⟩) (.const ⟨0⟩))),
    .addConst (.expr (.binary .mul (.const ⟨0⟩) (.const ⟨4⟩))),
    .addConst (.expr (.binary .add (.const ⟨3⟩) (.const ⟨5⟩))), .addInt ⟨5⟩ 256,
    .addConst (.expr (.binary .sdiv (.const ⟨6⟩) (.const ⟨7⟩)))]

def foldGraph : Graph :=
  match empty.run foldRun with
  | .ok g => g
  | .error _ => empty

def foldSample : FoldTree :=
  .binary .add (.binary .sdiv (.literal (-128)) (.literal (-1)))
    (.binary .mul (.literal 300) (.binary .udiv (.literal (-1)) (.literal 300)))

theorem unfolds_foldSample : foldGraph.Unfolds 8 ⟨6⟩ foldSample :=
  .binary rfl (.binary rfl (.literal rfl rfl) (.literal rfl rfl))
    (.binary rfl (.literal rfl rfl) (.binary rfl (.literal rfl rfl) (.literal rfl rfl)))

/-- In bytes, -128 / -1 + 300 * (-1 / 300) is 92, signed and then unsigned; its quotient by 256 is
left alone. -/
theorem foldGraph_simplify :
    foldGraph.ConstsInOrder ∧ foldGraph.Unfolds 8 ⟨6⟩ foldSample ∧
      (∃ c' g' type, foldGraph.simplify ⟨6⟩ = .ok (c', g') ∧
        g'.consts.get? c' = some ⟨.int type 92, type⟩ ∧ g'.types.get? type = some (.int 8)) ∧
      ∃ g', foldGraph.simplify ⟨8⟩ = .ok (⟨8⟩, g') := by
  have hback : foldGraph.ConstsInOrder := by decide
  refine ⟨hback, unfolds_foldSample, ?_, ?_⟩
  · obtain ⟨c', g', hsimp, -, hvalue, -⟩ :=
      simplify_eq_value hback (by decide) (by decide) unfolds_foldSample
    obtain ⟨type, w, hc', htype, hw, -⟩ := hvalue (by decide)
    obtain rfl : w = 92 := BitVec.eq_of_toInt_eq (by rw [hw]; decide)
    exact ⟨c', g', type, hsimp, hc', htype⟩
  · obtain ⟨c', g', hsimp, -, -, hkept⟩ := simplify_eq_value hback (by decide) (by decide)
      (.binary rfl unfolds_foldSample (.literal rfl rfl) : foldGraph.Unfolds 8 ⟨8⟩ _)
    obtain rfl := hkept (by decide)
    exact ⟨g', hsimp⟩

end Main

end Graph

end IrGraph
