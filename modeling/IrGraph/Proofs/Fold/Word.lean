import Mathlib.Algebra.Ring.Int.Defs
import Mathlib.Tactic.Ring
import IrGraph.Constant.Arithmetic

/-! Folding two literals is arithmetic on integers modulo `2 ^ bits`. A word stands for the integers
that have its low bits; results are stored as the representative nearest to zero. -/

namespace IrGraph

namespace BinaryOp

/-- Whether the operator is folded when its second operand stands for `y`. -/
def Folds (bits : Nat) (y : Int) : BinaryOp → Prop
  | add | sub | mul => True
  | sdiv | udiv => ¬(2 ^ bits : Int) ∣ y
  | _ => False

/-- The result of an operator, up to a multiple of `2 ^ bits`. A signed quotient is that of the
representatives nearest to zero, cut off toward zero; an unsigned one is that of the remainders. -/
def exact (bits : Nat) (x y : Int) : BinaryOp → Int
  | add => x + y
  | sub => x - y
  | mul => x * y
  | sdiv => (x.bmod (2 ^ bits)).tdiv (y.bmod (2 ^ bits))
  | udiv => x % 2 ^ bits / (y % 2 ^ bits)
  | _ => 0

instance (bits : Nat) (y : Int) : (op : BinaryOp) → Decidable (op.Folds bits y)
  | add | sub | mul => .isTrue trivial
  | sdiv | udiv => inferInstanceAs (Decidable ¬(2 ^ bits : Int) ∣ y)
  | fadd | fsub | fmul | fdiv | urem | srem | frem => .isFalse id

end BinaryOp

variable {bits : Nat} {a b w : Word} {x y z : Int} {op : BinaryOp}

theorem bmod_bmod_word (hle : bits ≤ 128) (z : Int) :
    (z.bmod (2 ^ 128)).bmod (2 ^ bits) = z.bmod (2 ^ bits) :=
  Int.bmod_bmod_of_dvd (Nat.pow_dvd_pow 2 hle)

theorem emod_eq_emod_of_bmod (h : x.bmod (2 ^ bits) = z.bmod (2 ^ bits)) :
    x % 2 ^ bits = z % 2 ^ bits := by
  have hx : x.bmod (2 ^ bits) % (2 ^ bits : Nat) = x % (2 ^ bits : Nat) := Int.bmod_emod
  have hz : z.bmod (2 ^ bits) % (2 ^ bits : Nat) = z % (2 ^ bits : Nat) := Int.bmod_emod
  rw [h, hz] at hx
  simpa using hx.symm

theorem bmod_mem_range (hpos : 0 < bits) (z : Int) :
    -2 ^ (bits - 1) ≤ z.bmod (2 ^ bits) ∧ z.bmod (2 ^ bits) < 2 ^ (bits - 1) := by
  obtain ⟨n, rfl⟩ : ∃ n, bits = n + 1 := ⟨bits - 1, by omega⟩
  have hmod : 0 < 2 ^ (n + 1) := Nat.two_pow_pos _
  have hlow := Int.le_bmod (x := z) hmod
  have hhigh := Int.bmod_lt (x := z) hmod
  have hpow : ((2 ^ (n + 1) : Nat) : Int) = 2 * 2 ^ n := by
    push_cast
    ring
  rw [hpow] at hlow hhigh
  rw [Nat.add_sub_cancel]
  constructor <;> omega

theorem pow_dvd_iff_bmod_eq_zero : (2 ^ bits : Int) ∣ z ↔ z.bmod (2 ^ bits) = 0 := by
  have hdvd : ((2 ^ bits : Nat) : Int) ∣ z ↔ z.bmod (2 ^ bits) = 0 := Int.dvd_iff_bmod_eq_zero
  simpa using hdvd

theorem pow_dvd_iff_of_bmod (h : x.bmod (2 ^ bits) = z.bmod (2 ^ bits)) :
    (2 ^ bits : Int) ∣ x ↔ (2 ^ bits : Int) ∣ z := by
  rw [pow_dvd_iff_bmod_eq_zero, h, ← pow_dvd_iff_bmod_eq_zero]

section Views

theorem toInt_wrap (hpos : 0 < bits) (hle : bits ≤ 128) (v : Word) :
    (wrap bits v).toInt = v.toInt.bmod (2 ^ bits) := by
  unfold wrap
  split
  · obtain rfl : bits = 128 := by omega
    exact (BitVec.toInt_bmod_cancel v).symm
  · rw [BitVec.toInt_signExtend_of_le hle, BitVec.toInt_setWidth, BitVec.toInt_eq_toNat_bmod,
      bmod_bmod_word hle]

theorem wrap_eq_zero_iff (hpos : 0 < bits) (hle : bits ≤ 128) (v : Word) :
    wrap bits v = 0 ↔ (2 ^ bits : Int) ∣ v.toInt := by
  rw [pow_dvd_iff_bmod_eq_zero, ← toInt_wrap hpos hle]
  exact BitVec.toInt_inj.symm

theorem toNat_unsignedView (hle : bits ≤ 128) (v : Word) :
    ((unsignedView bits v).toNat : Int) = v.toInt % 2 ^ bits := by
  have hlow : (v.toNat : Int) % 2 ^ bits = v.toInt % 2 ^ bits := by
    apply emod_eq_emod_of_bmod
    rw [BitVec.toInt_eq_toNat_bmod, bmod_bmod_word hle]
  have hnat : (unsignedView bits v).toNat = v.toNat % 2 ^ bits := by
    unfold unsignedView
    split
    · obtain rfl : bits = 128 := by omega
      exact (Nat.mod_eq_of_lt v.isLt).symm
    · rw [BitVec.toNat_setWidth_of_le hle, BitVec.toNat_setWidth]
  rw [hnat, ← hlow]
  push_cast
  rfl

theorem unsignedView_eq_zero_iff (hle : bits ≤ 128) (v : Word) :
    unsignedView bits v = 0 ↔ (2 ^ bits : Int) ∣ v.toInt := by
  rw [Int.dvd_iff_emod_eq_zero, ← toNat_unsignedView hle, Int.natCast_eq_zero]
  exact BitVec.toNat_inj.symm

end Views

section Fold

variable (hpos : 0 < bits) (hle : bits ≤ 128)
include hpos hle

theorem toInt_wrap_of_bmod (h : w.toInt.bmod (2 ^ bits) = z.bmod (2 ^ bits)) :
    (wrap bits w).toInt = z.bmod (2 ^ bits) := by
  rw [toInt_wrap hpos hle, h]

variable (hb : b.toInt.bmod (2 ^ bits) = y.bmod (2 ^ bits))
include hb

/-- What the words stand for decides what an operator makes of them. -/
theorem foldInt_of_folds (ha : a.toInt.bmod (2 ^ bits) = x.bmod (2 ^ bits))
    (hop : op.Folds bits y) :
    ∃ w, foldInt op bits a b = some w ∧ w.toInt = (op.exact bits x y).bmod (2 ^ bits) := by
  have hdvd : (2 ^ bits : Int) ∣ b.toInt ↔ (2 ^ bits : Int) ∣ y := pow_dvd_iff_of_bmod hb
  cases op with
  | add =>
    refine ⟨_, rfl, toInt_wrap_of_bmod hpos hle ?_⟩
    rw [BitVec.toInt_add, bmod_bmod_word hle, Int.add_bmod, ha, hb, ← Int.add_bmod]
    rfl
  | sub =>
    refine ⟨_, rfl, toInt_wrap_of_bmod hpos hle ?_⟩
    rw [BitVec.toInt_sub, bmod_bmod_word hle, Int.sub_bmod, ha, hb, ← Int.sub_bmod]
    rfl
  | mul =>
    refine ⟨_, rfl, toInt_wrap_of_bmod hpos hle ?_⟩
    rw [BitVec.toInt_mul, bmod_bmod_word hle, Int.mul_bmod, ha, hb, ← Int.mul_bmod]
    rfl
  | sdiv =>
    have hne : wrap bits b ≠ 0 := by
      rw [ne_eq, wrap_eq_zero_iff hpos hle, hdvd]
      exact hop
    refine ⟨_, if_neg hne, toInt_wrap_of_bmod hpos hle ?_⟩
    -- the one quotient that does not fit, of the least word by -1, wraps to the least word
    rw [BitVec.toInt_sdiv, bmod_bmod_word hle, toInt_wrap hpos hle, toInt_wrap hpos hle, ha, hb]
    rfl
  | udiv =>
    have hne : unsignedView bits b ≠ 0 := by
      rw [ne_eq, unsignedView_eq_zero_iff hle, hdvd]
      exact hop
    have hquot : ((unsignedView bits a / unsignedView bits b).toNat : Int) =
        x % 2 ^ bits / (y % 2 ^ bits) := by
      rw [BitVec.toNat_udiv, Int.natCast_ediv, toNat_unsignedView hle, toNat_unsignedView hle,
        emod_eq_emod_of_bmod ha, emod_eq_emod_of_bmod hb]
    refine ⟨_, if_neg hne, toInt_wrap_of_bmod hpos hle ?_⟩
    rw [BitVec.toInt_eq_toNat_bmod, bmod_bmod_word hle, hquot]
    rfl
  | _ => exact hop.elim

theorem foldInt_of_not_folds (hop : ¬op.Folds bits y) : foldInt op bits a b = none := by
  have hdvd : (2 ^ bits : Int) ∣ b.toInt ↔ (2 ^ bits : Int) ∣ y := pow_dvd_iff_of_bmod hb
  cases op with
  | add | sub | mul => exact (hop trivial).elim
  | sdiv =>
    have hzero : wrap bits b = 0 := (wrap_eq_zero_iff hpos hle b).mpr (hdvd.mpr (not_not.mp hop))
    exact if_pos hzero
  | udiv =>
    have hzero : unsignedView bits b = 0 :=
      (unsignedView_eq_zero_iff hle b).mpr (hdvd.mpr (not_not.mp hop))
    exact if_pos hzero
  | _ => rfl

end Fold

end IrGraph
