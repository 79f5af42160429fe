import Mathlib.Logic.Function.Basic
import IrGraph.Text.Escape

/-! An escaped text is read back byte by byte, so no two sequences of bytes are escaped alike. -/

namespace IrGraph

theorem hexValue?_hexDigit : ∀ n < 16, hexValue? (hexDigit n) = some n := by
  decide

theorem toNat_of_isPlainByte {b : UInt8} (h : isPlainByte b) :
    0x20 ≤ b.toNat ∧ b.toNat < 0x7f ∧ b.toNat ≠ 0x22 ∧ b.toNat ≠ 0x5c := by
  simp only [isPlainByte, Bool.and_eq_true, decide_eq_true_eq, bne_iff_ne, ne_eq] at h
  obtain ⟨⟨⟨hlow, hhigh⟩, hquote⟩, hbackslash⟩ := h
  exact ⟨UInt8.le_iff_toNat_le.mp hlow, UInt8.lt_iff_toNat_lt.mp hhigh,
    fun heq => hquote (UInt8.toNat_inj.mp heq), fun heq => hbackslash (UInt8.toNat_inj.mp heq)⟩

theorem toNat_ofNat_ascii : ∀ n < 0x80, (Char.ofNat n).toNat = n := by
  decide

theorem unescape?_cons {c : Char} (hc : c ≠ '\\') (rest : List Char) :
    unescape? (c :: rest) =
      if c.toNat < 0x80 ∧ isPlainByte (UInt8.ofNat c.toNat) then
        (unescape? rest).map (UInt8.ofNat c.toNat :: ·)
      else none := by
  rw [unescape?]
  rintro h l rest rfl
  exact absurd rfl hc

theorem unescape?_escapeByte_append (b : UInt8) (rest : List Char) :
    unescape? (escapeByte b ++ rest) = (unescape? rest).map (b :: ·) := by
  unfold escapeByte
  split
  case isTrue hplain =>
    obtain ⟨-, hlt, -, hne⟩ := toNat_of_isPlainByte hplain
    have hchar : (Char.ofNat b.toNat).toNat = b.toNat := toNat_ofNat_ascii b.toNat (by omega)
    have hbackslash : Char.ofNat b.toNat ≠ '\\' := by
      intro heq
      rw [heq] at hchar
      exact hne hchar.symm
    rw [List.singleton_append, unescape?_cons hbackslash, hchar, UInt8.ofNat_toNat,
      if_pos ⟨by omega, hplain⟩]
  case isFalse =>
    have hbyte : b.toNat < 256 := b.toNat_lt
    have hhigh := hexValue?_hexDigit (b.toNat / 16) (by omega)
    have hlow := hexValue?_hexDigit (b.toNat % 16) (by omega)
    have hvalue : 16 * (b.toNat / 16) + b.toNat % 16 = b.toNat := Nat.div_add_mod b.toNat 16
    simp only [List.cons_append, List.nil_append, unescape?, hhigh, hlow, Option.bind_eq_bind,
      Option.bind_some, hvalue, UInt8.ofNat_toNat]
    exact (Option.map_eq_bind).symm

theorem unescape?_flatMap_escapeByte (bytes : List UInt8) :
    unescape? (bytes.flatMap escapeByte) = some bytes := by
  induction bytes with
  | nil => rfl
  | cons b bytes ih => rw [List.flatMap_cons, unescape?_escapeByte_append, ih, Option.map_some]

theorem unescape?_escape (bytes : List UInt8) : unescape? (escape bytes).toList = some bytes := by
  rw [escape, String.toList_ofList, unescape?_flatMap_escapeByte]

theorem escape_injective : Function.Injective escape := by
  intro bytes bytes' h
  have hread : some bytes = some bytes' := by rw [← unescape?_escape, h, unescape?_escape]
  exact Option.some.inj hread

section Characters

/-- A digit, or a letter from A to F in upper case. -/
def isUpperHexDigit (c : Char) : Bool :=
  c.isDigit || 'A' ≤ c && c ≤ 'F'

variable {b : UInt8} {bytes : List UInt8} {c : Char} {before after : List Char}

theorem isUpperHexDigit_hexDigit : ∀ n < 16, isUpperHexDigit (hexDigit n) := by
  decide

theorem printable_of_isUpperHexDigit (h : isUpperHexDigit c) :
    0x20 ≤ c.toNat ∧ c.toNat < 0x7f ∧ c ≠ '"' ∧ c ≠ '\\' := by
  have hne {d : Char} (hd : ¬isUpperHexDigit d) : c ≠ d := by
    rintro rfl
    exact hd h
  have hrange : 0x30 ≤ c.toNat ∧ c.toNat ≤ 0x46 := by
    simp only [isUpperHexDigit, Char.isDigit, Bool.or_eq_true, Bool.and_eq_true, decide_eq_true_eq,
      Char.le_def, UInt32.le_iff_toNat_le] at h
    change 0x30 ≤ c.toNat ∧ c.toNat ≤ 0x39 ∨ 0x41 ≤ c.toNat ∧ c.toNat ≤ 0x46 at h
    omega
  exact ⟨by omega, by omega, hne (by decide), hne (by decide)⟩

/-- A byte is printed as one character that is no backslash, or as a backslash and two digits. -/
theorem escapeByte_cases (b : UInt8) :
    (∃ c, escapeByte b = [c] ∧ 0x20 ≤ c.toNat ∧ c.toNat < 0x7f ∧ c ≠ '"' ∧ c ≠ '\\') ∨
      ∃ h l, escapeByte b = ['\\', h, l] ∧ isUpperHexDigit h ∧ isUpperHexDigit l := by
  unfold escapeByte
  split
  case isTrue hplain =>
    obtain ⟨hlow, hhigh, hquote, hbackslash⟩ := toNat_of_isPlainByte hplain
    have hchar : (Char.ofNat b.toNat).toNat = b.toNat := toNat_ofNat_ascii b.toNat (by omega)
    have hne {d : Char} (hd : b.toNat ≠ d.toNat) : Char.ofNat b.toNat ≠ d := by
      rintro rfl
      exact hd hchar.symm
    exact .inl ⟨_, rfl, hchar.symm ▸ hlow, hchar.symm ▸ hhigh, hne hquote, hne hbackslash⟩
  case isFalse =>
    have hbyte : b.toNat < 256 := b.toNat_lt
    exact .inr ⟨_, _, rfl, isUpperHexDigit_hexDigit _ (by omega),
      isUpperHexDigit_hexDigit _ (by omega)⟩

theorem printable_of_mem_escapeByte (h : c ∈ escapeByte b) :
    0x20 ≤ c.toNat ∧ c.toNat < 0x7f ∧ c ≠ '"' := by
  obtain ⟨d, hb, hlow, hhigh, hquote, -⟩ | ⟨high, low, hb, hhigh, hlow⟩ := escapeByte_cases b
  · rw [hb, List.mem_singleton] at h
    exact h ▸ ⟨hlow, hhigh, hquote⟩
  · have hdigit {d : Char} (hd : isUpperHexDigit d) : 0x20 ≤ d.toNat ∧ d.toNat < 0x7f ∧ d ≠ '"' := by
      obtain ⟨hlow, hhigh, hquote, -⟩ := printable_of_isUpperHexDigit hd
      exact ⟨hlow, hhigh, hquote⟩
    rw [hb] at h
    simp only [List.mem_cons, List.not_mem_nil, or_false] at h
    rcases h with rfl | rfl | rfl
    · decide
    · exact hdigit hhigh
    · exact hdigit hlow

theorem printable_of_mem_escape (h : c ∈ (escape bytes).toList) :
    0x20 ≤ c.toNat ∧ c.toNat < 0x7f ∧ c ≠ '"' := by
  rw [escape, String.toList_ofList, List.mem_flatMap] at h
  obtain ⟨b, -, hb⟩ := h
  exact printable_of_mem_escapeByte hb

theorem toList_escape_cons (b : UInt8) (bytes : List UInt8) :
    (escape (b :: bytes)).toList = escapeByte b ++ (escape bytes).toList := by
  simp [escape]

/-- A backslash begins what one of the bytes is printed as. -/
theorem exists_of_escape_eq_append (h : (escape bytes).toList = before ++ '\\' :: after) :
    ∃ bs b bs', bytes = bs ++ b :: bs' ∧ before = (escape bs).toList ∧
      ∃ high low, after = high :: low :: (escape bs').toList ∧
        isUpperHexDigit high ∧ isUpperHexDigit low := by
  induction bytes generalizing before with
  | nil => simp [escape] at h
  | cons b bytes ih =>
    rw [toList_escape_cons] at h
    have hlater {front : List Char} (hfront : before = escapeByte b ++ front)
        (h : (escape bytes).toList = front ++ '\\' :: after) :
        ∃ bs b' bs', b :: bytes = bs ++ b' :: bs' ∧ before = (escape bs).toList ∧
          ∃ high low, after = high :: low :: (escape bs').toList ∧
            isUpperHexDigit high ∧ isUpperHexDigit low := by
      obtain ⟨bs, b', bs', rfl, rfl, hdigits⟩ := ih h
      exact ⟨b :: bs, b', bs', rfl, by rw [toList_escape_cons, hfront], hdigits⟩
    obtain ⟨c, hb, -, -, -, hc⟩ | ⟨high, low, hb, hhigh, hlow⟩ := escapeByte_cases b
    · rcases before with _ | ⟨d, before⟩
      · simp [hb, hc] at h
      · simp only [hb, List.cons_append, List.nil_append, List.cons.injEq] at h
        exact hlater (by rw [hb, h.1]; rfl) h.2
    · have hhigh' := (printable_of_isUpperHexDigit hhigh).2.2.2
      have hlow' := (printable_of_isUpperHexDigit hlow).2.2.2
      rcases before with _ | ⟨d, _ | ⟨d', _ | ⟨d'', before⟩⟩⟩
      · simp only [hb, List.cons_append, List.nil_append, List.cons.injEq, true_and] at h
        exact ⟨[], b, bytes, rfl, rfl, high, low, h.symm, hhigh, hlow⟩
      · simp [hb, hhigh'] at h
      · simp [hb, hlow'] at h
      · simp only [hb, List.cons_append, List.nil_append, List.cons.injEq] at h
        exact hlater (by rw [hb, h.1, h.2.1, h.2.2.1]; rfl) h.2.2.2

end Characters

theorem utf8Bytes_injective : Function.Injective utf8Bytes := by
  intro s s' h
  exact String.toByteArray_inj.mp (ByteArray.ext (Array.toList_inj.mp h))

theorem escapeText_injective : Function.Injective escapeText :=
  escape_injective.comp utf8Bytes_injective

end IrGraph
