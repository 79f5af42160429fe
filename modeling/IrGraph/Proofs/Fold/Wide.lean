import IrGraph.Proofs.Fold.Tree

/-! Folding literals of types wider than a word. They are folded as if they had 128 bits, so a
result is right when it fits in a word; quotients of negative numbers, read without a sign, are
larger in the wider type and are not. -/

namespace IrGraph

/-- Whether a literal can be stored with the value `z`. -/
def InWord (z : Int) : Prop :=
  -2 ^ 127 ≤ z ∧ z < 2 ^ 127

variable {bits : Nat} {a b : Word} {x y z : Int} {op : BinaryOp}

theorem inWord_toInt (v : Word) : InWord v.toInt :=
  ⟨BitVec.le_toInt v, BitVec.toInt_lt⟩

theorem inWord_bmod (z : Int) : InWord (z.bmod (2 ^ 128)) := by
  have hpos : 0 < 128 := by decide
  exact bmod_mem_range hpos z

theorem pow_word_le (hbits : 128 ≤ bits) : (2 ^ 128 : Int) ≤ 2 ^ bits := by
  exact_mod_cast Nat.pow_le_pow_right (by decide) hbits

theorem InWord.bmod_eq (hz : InWord z) (hbits : 128 ≤ bits) : z.bmod (2 ^ bits) = z := by
  have hpow := pow_word_le hbits
  obtain ⟨hlow, hhigh⟩ := hz
  apply Int.bmod_eq_of_le_mul_two <;> push_cast <;> omega

theorem bmod_word_eq_iff (hbits : 128 ≤ bits) :
    z.bmod (2 ^ 128) = z.bmod (2 ^ bits) ↔ InWord (z.bmod (2 ^ bits)) := by
  constructor
  · intro h
    rw [← h]
    exact inWord_bmod z
  · intro h
    have hdvd : 2 ^ 128 ∣ 2 ^ bits := Nat.pow_dvd_pow 2 hbits
    rw [← Int.bmod_bmod_of_dvd hdvd, h.bmod_eq (Nat.le_refl 128)]

theorem InWord.pow_dvd_iff (hz : InWord z) (hbits : 128 ≤ bits) : (2 ^ bits : Int) ∣ z ↔ z = 0 := by
  rw [pow_dvd_iff_bmod_eq_zero, hz.bmod_eq hbits]

theorem foldInt_of_le (hbits : 128 ≤ bits) : foldInt op bits a b = foldInt op 128 a b := by
  have hwrap (v : Word) : wrap bits v = wrap 128 v := by simp [wrap, hbits]
  have hview (v : Word) : unsignedView bits v = unsignedView 128 v := by simp [unsignedView, hbits]
  simp only [foldInt, hwrap, hview]

section Quotient

theorem InWord.emod_eq (hz : InWord z) (hbits : 128 ≤ bits) :
    z % 2 ^ bits = if 0 ≤ z then z else z + 2 ^ bits := by
  have hpow := pow_word_le hbits
  obtain ⟨hlow, hhigh⟩ := hz
  split
  · exact Int.emod_eq_of_lt ‹_› (by omega)
  · rw [← Int.add_emod_right]
    exact Int.emod_eq_of_lt (by omega) (by omega)

variable (hbits : 128 ≤ bits) (hx : InWord x) (hy : InWord y)
include hbits hx hy

theorem udiv_exact_of_nonneg (hsign : 0 ≤ x) :
    BinaryOp.udiv.exact bits x y = if 0 ≤ y then x / y else 0 := by
  have hpow := pow_word_le hbits
  rw [BinaryOp.exact, hx.emod_eq hbits, hy.emod_eq hbits, if_pos hsign]
  split
  · rfl
  · have hhigh : x < 2 ^ 127 := hx.2
    have hlow : -2 ^ 127 ≤ y := hy.1
    exact Int.ediv_eq_zero_of_lt hsign (by omega)

theorem udiv_exact_of_neg (hsign : x < 0) :
    BinaryOp.udiv.exact bits x y =
      if 0 ≤ y then (x + 2 ^ bits) / y else if x < y then 0 else 1 := by
  have hpow := pow_word_le hbits
  have hlow : -2 ^ 127 ≤ x := hx.1
  have hlow' : -2 ^ 127 ≤ y := hy.1
  rw [BinaryOp.exact, hx.emod_eq hbits, hy.emod_eq hbits, if_neg (Int.not_le.mpr hsign)]
  split
  · rfl
  split
  · exact Int.ediv_eq_zero_of_lt (by omega) (by omega)
  · -- both stand for numbers between half of the modulus and the modulus
    have hpos : 0 < y + 2 ^ bits := by omega
    apply Int.le_antisymm
    · exact Int.le_of_lt_add_one ((Int.ediv_lt_iff_lt_mul hpos).mpr (by omega))
    · exact (Int.le_ediv_iff_mul_le hpos).mpr (by omega)

end Quotient

/-- A negative word divided by two or more has a quotient that grows with the width. -/
theorem udiv_exact_bmod_lt (hbits : 128 < bits) (hx : InWord x) (hy : InWord y) (hsign : x < 0)
    (hdivisor : 2 ≤ y) :
    (BinaryOp.udiv.exact 128 x y).bmod (2 ^ 128) <
      (BinaryOp.udiv.exact bits x y).bmod (2 ^ bits) := by
  have hpow : (2 ^ 129 : Int) ≤ 2 ^ bits := by exact_mod_cast Nat.pow_le_pow_right (by decide) hbits
  have hlow : -2 ^ 127 ≤ x := hx.1
  have hhigh : y < 2 ^ 127 := hy.2
  have hpos : 0 < y := by omega
  have hhalf (m : Int) (hm : 2 ^ 128 ≤ m) : 0 ≤ (x + m) / y ∧ (x + m) / y * 2 < m := by
    have hle : (x + m) / y * y ≤ x + m := Int.ediv_mul_le _ hpos.ne'
    have hnonneg : 0 ≤ (x + m) / y := Int.ediv_nonneg (by omega) (by omega)
    have hmul : (x + m) / y * 2 ≤ (x + m) / y * y := Int.mul_le_mul_of_nonneg_left hdivisor hnonneg
    omega
  have hself (n : Nat) (hn : 128 ≤ n) :
      (BinaryOp.udiv.exact n x y).bmod (2 ^ n) = (x + 2 ^ n) / y := by
    obtain ⟨hnonneg, hlt⟩ := hhalf _ (pow_word_le hn)
    rw [udiv_exact_of_neg hn hx hy hsign, if_pos (by omega)]
    apply Int.bmod_eq_of_le_mul_two <;> push_cast <;> omega
  rw [hself 128 (Nat.le_refl 128), hself bits hbits.le]
  calc (x + 2 ^ 128) / y
      < (x + 2 ^ 128) / y + 1 := Int.lt_succ _
    _ = (x + 2 ^ 128 + 1 * y) / y := (Int.add_mul_ediv_right _ _ hpos.ne').symm
    _ ≤ (x + 2 ^ bits) / y := Int.ediv_le_ediv hpos (by omega)

theorem InWord.bmod_word_eq (hz : InWord z) (hbits : 128 ≤ bits) :
    z.bmod (2 ^ 128) = z.bmod (2 ^ bits) := by
  rw [hz.bmod_eq (Nat.le_refl 128), hz.bmod_eq hbits]

theorem udiv_bmod_word_eq_iff (hbits : 128 < bits) (hx : InWord x) (hy : InWord y) (hne : y ≠ 0) :
    (BinaryOp.udiv.exact 128 x y).bmod (2 ^ 128) =
        (BinaryOp.udiv.exact bits x y).bmod (2 ^ bits) ↔
      0 ≤ x ∨ y ≤ 1 := by
  have hword : (128 : Nat) ≤ 128 := Nat.le_refl 128
  by_cases hsign : 0 ≤ x
  case pos =>
    refine iff_of_true ?_ (.inl hsign)
    rw [udiv_exact_of_nonneg hword hx hy hsign, udiv_exact_of_nonneg hbits.le hx hy hsign]
    refine InWord.bmod_word_eq ?_ hbits.le
    split
    · have hle : x / y ≤ x := Int.ediv_le_self y hsign
      have hnonneg : 0 ≤ x / y := Int.ediv_nonneg hsign ‹_›
      exact ⟨by omega, hle.trans_lt hx.2⟩
    · exact ⟨by omega, by omega⟩
  rw [Int.not_le] at hsign
  obtain hdivisor | rfl | hdivisor : y < 0 ∨ y = 1 ∨ 2 ≤ y := by omega
  · refine iff_of_true ?_ (.inr (by omega))
    have hnot : ¬0 ≤ y := by omega
    rw [udiv_exact_of_neg hword hx hy hsign, udiv_exact_of_neg hbits.le hx hy hsign, if_neg hnot,
      if_neg hnot]
    refine InWord.bmod_word_eq ?_ hbits.le
    split <;> exact ⟨by omega, by omega⟩
  · refine iff_of_true ?_ (.inr (by omega))
    have hself (n : Nat) (hn : 128 ≤ n) :
        (BinaryOp.udiv.exact n x 1).bmod (2 ^ n) = x := by
      rw [udiv_exact_of_neg hn hx hy hsign, if_pos (by omega), Int.ediv_one]
      have hshift : (x + (2 ^ n : Nat)).bmod (2 ^ n) = x.bmod (2 ^ n) := Int.add_bmod_right ..
      push_cast at hshift
      rw [hshift, hx.bmod_eq hn]
    rw [hself 128 hword, hself bits hbits.le]
  · exact iff_of_false (udiv_exact_bmod_lt hbits hx hy hsign hdivisor).ne (by omega)

/-- Whether the result of an operator on the words `x` and `y` is the same in `bits` bits as in 128.
An unsigned quotient that is not the same may still fit in a word. -/
def BinaryOp.FitsWord (bits : Nat) (x y : Int) : BinaryOp → Prop
  | udiv => 0 ≤ x ∨ y ≤ 1
  | op => InWord ((op.exact bits x y).bmod (2 ^ bits))

instance (z : Int) : Decidable (InWord z) :=
  inferInstanceAs (Decidable (_ ∧ _))

instance (bits : Nat) (x y : Int) : (op : BinaryOp) → Decidable (op.FitsWord bits x y)
  | .udiv => inferInstanceAs (Decidable (_ ∨ _))
  | .add | .sub | .mul | .sdiv | .fadd | .fsub | .fmul | .fdiv | .urem | .srem | .frem =>
    inferInstanceAs (Decidable (InWord _))

theorem folds_wide_iff (hbits : 128 ≤ bits) (hy : InWord y) : op.Folds bits y ↔ op.Folds 128 y := by
  cases op with
  | sdiv | udiv =>
    exact not_congr ((hy.pow_dvd_iff hbits).trans (hy.pow_dvd_iff (Nat.le_refl 128)).symm)
  | _ => exact Iff.rfl

theorem foldInt_wide (hbits : 128 < bits) (hop : op.Folds bits b.toInt) :
    ∃ w, foldInt op bits a b = some w ∧
      w.toInt = (op.exact 128 a.toInt b.toInt).bmod (2 ^ 128) ∧
      (w.toInt = (op.exact bits a.toInt b.toInt).bmod (2 ^ bits) ↔
        op.FitsWord bits a.toInt b.toInt) := by
  have hx := inWord_toInt a
  have hy := inWord_toInt b
  have hne : op = .udiv → b.toInt ≠ 0 := by
    rintro rfl hzero
    exact hop ((hy.pow_dvd_iff hbits.le).mpr hzero)
  rw [folds_wide_iff hbits.le hy] at hop
  obtain ⟨w, hfold, hw⟩ := foldInt_of_folds (a := a) (by decide) (Nat.le_refl 128) rfl rfl hop
  refine ⟨w, (foldInt_of_le hbits.le).trans hfold, hw, ?_⟩
  rw [hw]
  cases op with
  | udiv => exact udiv_bmod_word_eq_iff hbits hx hy (hne rfl)
  | sdiv =>
    have hsame : BinaryOp.sdiv.exact 128 a.toInt b.toInt =
        BinaryOp.sdiv.exact bits a.toInt b.toInt := by
      simp only [BinaryOp.exact]
      rw [hx.bmod_eq (Nat.le_refl 128), hy.bmod_eq (Nat.le_refl 128), hx.bmod_eq hbits.le,
        hy.bmod_eq hbits.le]
    rw [hsame]
    exact bmod_word_eq_iff hbits.le
  | _ => exact bmod_word_eq_iff hbits.le

namespace Graph

variable {g : Graph} {c l r : ConstRef} {type other stored sl sr : TypeRef}

/-- Two literals of more than 128 bits are folded as words of 128 bits. That is the result of the
operator in their own type exactly when it fits in a word; but an unsigned quotient is right unless
a negative number is divided by two or more. -/
theorem simplify_wide (hbits : 128 < bits)
    (hc : g.consts.get? c = some ⟨.expr (.binary op (.const l) (.const r)), stored⟩)
    (hl : g.consts.get? l = some ⟨.int type a, sl⟩) (htype : g.types.get? type = some (.int bits))
    (hr : g.consts.get? r = some ⟨.int other b, sr⟩) :
    ∃ c' g', g.simplify c = .ok (c', g') ∧
      (op.Folds bits b.toInt → ∃ w, g'.consts.get? c' = some ⟨.int type w, type⟩ ∧
        w.toInt = (op.exact 128 a.toInt b.toInt).bmod (2 ^ 128) ∧
        (w.toInt = (op.exact bits a.toInt b.toInt).bmod (2 ^ bits) ↔
          op.FitsWord bits a.toInt b.toInt)) ∧
      (¬op.Folds bits b.toInt → c' = c ∧ g' = g) := by
  obtain ⟨depth, hdepth⟩ : ∃ depth, g.consts.size = depth + 1 := by
    have hsize := Arena.index_lt_of_get? hc
    exact ⟨g.consts.size - 1, by omega⟩
  have hsimp : g.simplify c = g.foldOperands op c l r := by
    rw [simplify, hdepth]
    exact simplifyWithin_binary hc rfl (simplifyWithin_leaf hl nofun) (simplifyWithin_leaf hr nofun)
  rw [hsimp, foldOperands_eq hl hr (foldLiterals_int htype)]
  by_cases hop : op.Folds bits b.toInt
  · obtain ⟨w, hfold, hword, hiff⟩ := foldInt_wide (a := a) hbits hop
    obtain ⟨c', g', hadd, -, hc'⟩ := g.addConst_int type w
    rw [hfold]
    exact ⟨c', g', hadd, fun _ => ⟨w, hc', hword, hiff⟩, fun hnot => (hnot hop).elim⟩
  · have hnone : foldInt op bits a b = none := by
      rw [folds_wide_iff hbits.le (inWord_toInt b)] at hop
      exact (foldInt_of_le hbits.le).trans
        (foldInt_of_not_folds (by decide) (Nat.le_refl 128) rfl hop)
    rw [hnone]
    exact ⟨c, g, rfl, fun h => (hop h).elim, fun _ => ⟨rfl, rfl⟩⟩

/-- In 129 bits, the sum and the unsigned quotient of -1 and 2 ^ 126. -/
def wideRun : List Edit :=
  [.intern (.int 129), .addInt ⟨5⟩ (-1), .addInt ⟨5⟩ (2 ^ 126),
    .addConst (.expr (.binary .add (.const ⟨0⟩) (.const ⟨1⟩))),
    .addConst (.expr (.binary .udiv (.const ⟨0⟩) (.const ⟨1⟩)))]

def wideGraph : Graph :=
  match empty.run wideRun with
  | .ok g => g
  | .error _ => empty

theorem wideGraph_simplify_add :
    ∃ c' g' w, wideGraph.simplify ⟨2⟩ = .ok (c', g') ∧
      g'.consts.get? c' = some ⟨.int ⟨5⟩ w, ⟨5⟩⟩ ∧ w.toInt = 2 ^ 126 - 1 := by
  have hbits : 128 < 129 := by decide
  obtain ⟨c', g', hsimp, hvalue, -⟩ :=
    simplify_wide (g := wideGraph) (c := ⟨2⟩) hbits rfl rfl rfl rfl
  obtain ⟨w, hc', -, hiff⟩ := hvalue trivial
  exact ⟨c', g', w, hsimp, hc', (hiff.mpr (by decide)).trans (by decide)⟩

/-- The quotient that is stored is 3, that of 2 ^ 128 - 1; in 129 bits, -1 is 2 ^ 129 - 1 and the
quotient is 7. -/
theorem exists_wide_quotient_ne :
    ¬∀ (g g' : Graph) (bits : Nat) (op : BinaryOp) (c c' l r : ConstRef)
      (type stored sl sr : TypeRef) (a b w : Word), 128 < bits →
      g.types.get? type = some (.int bits) → g.consts.get? l = some ⟨.int type a, sl⟩ →
      g.consts.get? r = some ⟨.int type b, sr⟩ →
      g.consts.get? c = some ⟨.expr (.binary op (.const l) (.const r)), stored⟩ →
      g.simplify c = .ok (c', g') → g'.consts.get? c' = some ⟨.int type w, type⟩ →
      w.toInt = (op.exact bits a.toInt b.toInt).bmod (2 ^ bits) := by
  intro h
  have hsimp : ∃ c' g', wideGraph.simplify ⟨3⟩ = .ok (c', g') ∧
      g'.consts.get? c' = some ⟨.int ⟨5⟩ 3, ⟨5⟩⟩ := ⟨_, _, rfl, rfl⟩
  obtain ⟨c', g', hsimp, hc'⟩ := hsimp
  have heq := h wideGraph g' 129 .udiv ⟨3⟩ c' ⟨0⟩ ⟨1⟩ ⟨5⟩ ⟨5⟩ ⟨5⟩ ⟨5⟩ (-1) (1 <<< 126) 3 (by decide) rfl rfl
    rfl rfl hsimp hc'
  exact absurd heq (by decide)

end Graph

end IrGraph
