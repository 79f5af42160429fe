import IrGraph.Target.Number

/-! Numbers in a descriptor: which texts are read as a number, and that a number is read back from its
text. -/

namespace IrGraph

theorem le_ofDigitChars (n : Nat) (digits : List Char) : n ≤ Nat.ofDigitChars 10 digits n := by
  induction digits generalizing n with
  | nil => simp
  | cons c rest ih =>
    rw [Nat.ofDigitChars_cons]
    exact Nat.le_trans (by omega) (ih _)

theorem readDigits_eq_ok {n : UInt64} {digits : List Char} (hdigit : ∀ c ∈ digits, c.isDigit)
    (hlt : Nat.ofDigitChars 10 digits n.toNat < UInt64.size) :
    readDigits n digits = .ok (UInt64.ofNat (Nat.ofDigitChars 10 digits n.toNat)) := by
  induction digits generalizing n with
  | nil => simp [readDigits]
  | cons c rest ih =>
    rw [Nat.ofDigitChars_cons] at hlt ⊢
    change Nat.ofDigitChars 10 rest (10 * n.toNat + (c.toNat - 48)) < UInt64.size at hlt
    have hnext : 10 * n.toNat + (c.toNat - 48) < UInt64.size :=
      Nat.lt_of_le_of_lt (le_ofDigitChars _ rest) hlt
    have hnat : (UInt64.ofNat (10 * n.toNat + (c.toNat - 48))).toNat =
        10 * n.toNat + (c.toNat - 48) := UInt64.toNat_ofNat_of_lt' hnext
    have hrest := ih (fun d hd => hdigit d (List.mem_cons_of_mem c hd)) (n := .ofNat _)
      (by rwa [hnat])
    rw [hnat] at hrest
    rw [readDigits, if_pos (hdigit c List.mem_cons_self)]
    simp only [hnext, if_true]
    exact hrest

theorem toList_numberText (n : UInt64) : (numberText n).toList = Nat.toDigits 10 n.toNat := by
  rw [numberText, Nat.toString_eq_ofList_toDigits, String.toList_ofList]

theorem isDigit_of_mem_numberText {n : UInt64} {c : Char} (h : c ∈ (numberText n).toList) :
    c.isDigit := by
  rw [toList_numberText] at h
  exact Nat.isDigit_of_mem_toDigits (by decide) (by decide) h

theorem numberText_ne_nil (n : UInt64) : (numberText n).toList ≠ [] := by
  rw [toList_numberText]
  exact Nat.toDigits_ne_nil

theorem readNumber_of_digits {digits : List Char} (hne : digits ≠ [])
    (hdigit : ∀ c ∈ digits, c.isDigit) : readNumber digits = readDigits 0 digits := by
  unfold readNumber
  split
  · exact absurd rfl hne
  · exact absurd (hdigit '+' List.mem_cons_self) (by decide)
  · exact absurd (hdigit '+' List.mem_cons_self) (by decide)
  · rfl

theorem readNumber_numberText (n : UInt64) : readNumber (numberText n).toList = .ok n := by
  have hvalue : Nat.ofDigitChars 10 (numberText n).toList (UInt64.toNat 0) = n.toNat := by
    rw [toList_numberText, UInt64.toNat_zero, Nat.ofDigitChars_ten_toDigits]
  rw [readNumber_of_digits (numberText_ne_nil n) fun c hc => isDigit_of_mem_numberText hc,
    readDigits_eq_ok (fun c hc => isDigit_of_mem_numberText hc)
      (by rw [hvalue]; exact n.toNat_lt_size), hvalue, UInt64.ofNat_toNat]

/-- What a number is: an optional plus sign and digits, with a value below `2 ^ 64`. -/
def Numeral (text : List Char) (n : UInt64) : Prop :=
  ∃ digits, (text = digits ∨ text = '+' :: digits) ∧ digits ≠ [] ∧ (∀ c ∈ digits, c.isDigit) ∧
    Nat.ofDigitChars 10 digits 0 = n.toNat

theorem Numeral.ne_nil {text : List Char} {n : UInt64} (h : Numeral text n) : text ≠ [] := by
  obtain ⟨digits, rfl | rfl, hne, -⟩ := h
  · exact hne
  · simp

theorem readDigits_eq_ok_iff {n m : UInt64} {digits : List Char} :
    readDigits n digits = .ok m ↔
      (∀ c ∈ digits, c.isDigit) ∧ Nat.ofDigitChars 10 digits n.toNat = m.toNat := by
  constructor
  · intro h
    induction digits generalizing n with
    | nil =>
      cases h
      exact ⟨by simp, rfl⟩
    | cons c rest ih =>
      rw [readDigits] at h
      by_cases hc : c.isDigit
      · rw [if_pos hc] at h
        by_cases hlt : 10 * n.toNat + (c.toNat - 48) < UInt64.size
        · simp only [hlt, if_true] at h
          obtain ⟨hrest, hvalue⟩ := ih h
          rw [UInt64.toNat_ofNat_of_lt' hlt] at hvalue
          exact ⟨List.forall_mem_cons.mpr ⟨hc, hrest⟩, by rw [Nat.ofDigitChars_cons]; exact hvalue⟩
        · simp only [hlt, if_false] at h
          cases h
      · rw [if_neg hc] at h
        cases h
  · rintro ⟨hdigit, hvalue⟩
    rw [readDigits_eq_ok hdigit (hvalue ▸ m.toNat_lt_size), hvalue, UInt64.ofNat_toNat]

theorem readNumber_eq_ok_iff {text : List Char} {n : UInt64} :
    readNumber text = .ok n ↔ Numeral text n := by
  constructor
  · intro h
    unfold readNumber at h
    split at h
    case h_1 => cases h
    case h_2 => cases h
    case h_3 digits hne =>
      obtain ⟨hdigit, hvalue⟩ := readDigits_eq_ok_iff.mp h
      exact ⟨digits, .inr rfl, fun hnil => hne (by rw [hnil]), hdigit, hvalue⟩
    case h_4 hne _ _ =>
      obtain ⟨hdigit, hvalue⟩ := readDigits_eq_ok_iff.mp h
      exact ⟨text, .inl rfl, hne, hdigit, hvalue⟩
  · rintro ⟨digits, rfl | rfl, hne, hdigit, hvalue⟩
    · rw [readNumber_of_digits hne hdigit]
      exact readDigits_eq_ok_iff.mpr ⟨hdigit, hvalue⟩
    · obtain ⟨c, rest, rfl⟩ := List.exists_cons_of_ne_nil hne
      exact readDigits_eq_ok_iff.mpr ⟨hdigit, hvalue⟩

end IrGraph
