import IrGraph.Text.Name
import IrGraph.Proofs.Text.Escape

/-! What an identifier is printed as tells names from numbers, and one name from another. -/

namespace IrGraph

theorem exists_cons_of_isBareName {name : String} (h : isBareName name) :
    ∃ c rest, name.toList = c :: rest ∧ isBareChar c ∧ ¬c.isDigit := by
  unfold isBareName at h
  cases hname : name.toList with
  | nil => simp [hname] at h
  | cons c rest =>
    simp only [hname, Bool.and_eq_true, Bool.not_eq_true'] at h
    exact ⟨c, rest, rfl, h.1.2, by simp [h.1.1]⟩

theorem toList_quoted (s : String) :
    (quoted s).toList = '"' :: ((escapeText s).toList ++ ['"']) := by
  simp [quoted]

theorem quoted_injective : Function.Injective quoted := by
  intro s s' h
  have hchars : (quoted s).toList = (quoted s').toList := congrArg String.toList h
  rw [toList_quoted, toList_quoted, List.cons.injEq, List.append_cancel_right_eq] at hchars
  exact escapeText_injective (String.toList_inj.mp hchars.2)

theorem quoted_ne_of_isBareName {name : String} (h : isBareName name) (s : String) :
    quoted s ≠ name := by
  obtain ⟨c, rest, hname, hbare, -⟩ := exists_cons_of_isBareName h
  intro heq
  have hchars : '"' :: ((escapeText s).toList ++ ['"']) = c :: rest := by
    rw [← toList_quoted, heq, hname]
  obtain rfl : '"' = c := List.head_eq_of_cons_eq hchars
  exact absurd hbare (by decide)

theorem nameText_injective : Function.Injective nameText := by
  intro name name' h
  unfold nameText at h
  split at h
  case isTrue hbare =>
    split at h
    case isTrue => exact h
    case isFalse => exact absurd h.symm (quoted_ne_of_isBareName hbare name')
  case isFalse =>
    split at h
    case isTrue hbare' => exact absurd h (quoted_ne_of_isBareName hbare' name)
    case isFalse => exact quoted_injective h

/-- A printed name begins with a quote, or with a character that is no digit. -/
theorem exists_cons_nameText (name : String) :
    ∃ c rest, (nameText name).toList = c :: rest ∧ (c = '"' ∨ isBareChar c ∧ ¬c.isDigit) := by
  unfold nameText
  split
  case isTrue hbare =>
    obtain ⟨c, rest, hname, hc⟩ := exists_cons_of_isBareName hbare
    exact ⟨c, rest, hname, .inr hc⟩
  case isFalse => exact ⟨'"', _, toList_quoted name, .inl rfl⟩

theorem nameText_ne_questionMark (name : String) : nameText name ≠ "?" := by
  obtain ⟨c, rest, hname, hc⟩ := exists_cons_nameText name
  intro heq
  have hchars : ['?'] = c :: rest := by rw [← hname, heq]; rfl
  obtain rfl : '?' = c := List.head_eq_of_cons_eq hchars
  exact absurd hc (by decide)

theorem repr_injective : Function.Injective Nat.repr := by
  intro m n h
  have hdigits : Nat.toDigits 10 m = Nat.toDigits 10 n := by
    rw [← Nat.toList_repr, h, Nat.toList_repr]
  calc
    m = Nat.ofDigitChars 10 (Nat.toDigits 10 m) 0 := Nat.ofDigitChars_ten_toDigits.symm
    _ = Nat.ofDigitChars 10 (Nat.toDigits 10 n) 0 := by rw [hdigits]
    _ = n := Nat.ofDigitChars_ten_toDigits

theorem isDigit_of_mem_repr {n : Nat} {c : Char} (h : c ∈ n.repr.toList) : c.isDigit := by
  rw [Nat.toList_repr] at h
  exact Nat.isDigit_of_mem_toDigits (by decide) (by decide) h

theorem isDigit_of_repr_eq {n : Nat} {c : Char} {rest : List Char}
    (h : n.repr.toList = c :: rest) : c.isDigit :=
  isDigit_of_mem_repr (h ▸ List.mem_cons_self)

theorem append_inj_of_all {α : Type} {p : α → Bool} {l l' x y : List α} (hl : l.all p)
    (hl' : l'.all p) (hx : ∀ a ∈ x.head?, ¬p a) (hy : ∀ a ∈ y.head?, ¬p a)
    (h : l ++ x = l' ++ y) : l = l' ∧ x = y := by
  induction l generalizing l' with
  | nil =>
    cases l' with
    | nil => exact ⟨rfl, h⟩
    | cons a l' =>
      obtain rfl : x = a :: (l' ++ y) := h
      exact absurd (Bool.and_eq_true_iff.mp hl').1 (hx a rfl)
  | cons a l ih =>
    cases l' with
    | nil =>
      obtain rfl : a :: (l ++ x) = y := h
      exact absurd (Bool.and_eq_true_iff.mp hl).1 (hy a rfl)
    | cons a' l' =>
      obtain ⟨rfl, htail⟩ := List.cons.inj h
      obtain ⟨rfl, hrest⟩ :=
        ih (Bool.and_eq_true_iff.mp hl).2 (Bool.and_eq_true_iff.mp hl').2 htail
      exact ⟨rfl, hrest⟩

/-- A number ends where no digit follows. -/
theorem repr_append_inj {m n : Nat} {x y : List Char} (hx : ∀ c ∈ x.head?, ¬c.isDigit)
    (hy : ∀ c ∈ y.head?, ¬c.isDigit) (h : m.repr.toList ++ x = n.repr.toList ++ y) :
    m = n ∧ x = y := by
  have hall (k : Nat) : k.repr.toList.all Char.isDigit :=
    List.all_eq_true.mpr fun c => isDigit_of_mem_repr
  obtain ⟨hrepr, hrest⟩ := append_inj_of_all (hall m) (hall n) hx hy h
  exact ⟨repr_injective (String.toList_inj.mp hrepr), hrest⟩

theorem nameText_ne_repr (name : String) (n : Nat) : nameText name ≠ n.repr := by
  obtain ⟨c, rest, hname, hc⟩ := exists_cons_nameText name
  intro heq
  have hdigit : c.isDigit := isDigit_of_repr_eq (by rw [← heq, hname])
  rcases hc with rfl | ⟨-, hnot⟩
  · exact absurd hdigit (by decide)
  · exact hnot hdigit

theorem repr_ne_questionMark (n : Nat) : n.repr ≠ "?" := by
  intro heq
  have hdigit : '?'.isDigit := isDigit_of_repr_eq (n := n) (by rw [heq]; rfl)
  exact absurd hdigit (by decide)

theorem Ident.text_eq_questionMark_iff (i : Ident) : i.text = "?" ↔ i = anonymous := by
  obtain ⟨_ | name, _ | id⟩ := i
  all_goals simp [text, anonymous, nameText_ne_questionMark, repr_ne_questionMark]

/-- Identifiers are printed alike when they have one name, or no name and one number. -/
theorem Ident.text_eq_text_iff (i j : Ident) :
    i.text = j.text ↔ i.name = j.name ∧ (i.name = none → i.id = j.id) := by
  have hquestion (n : Nat) : "?" ≠ n.repr := (repr_ne_questionMark n).symm
  have hmark (name : String) : "?" ≠ nameText name := (nameText_ne_questionMark name).symm
  have hnumber (name : String) (n : Nat) : n.repr ≠ nameText name := (nameText_ne_repr name n).symm
  obtain ⟨_ | name, _ | id⟩ := i <;> obtain ⟨_ | name', _ | id'⟩ := j
  all_goals simp [text, hquestion, hmark, hnumber, repr_ne_questionMark, nameText_ne_questionMark,
    nameText_ne_repr, nameText_injective.eq_iff, repr_injective.eq_iff]

/-- Identifiers are printed alike when they have one name, or when neither has a name and they have
one number or none. -/
theorem Ident.text_eq_text_iff_name_or_number (i j : Ident) :
    i.text = j.text ↔ (∃ name, i.name = some name ∧ j.name = some name) ∨
      i.name = none ∧ j.name = none ∧ i.id = j.id := by
  rw [text_eq_text_iff]
  cases hi : i.name <;> cases hj : j.name <;> simp [eq_comm]

/-- Escaped bytes are printable and hold no quote. A backslash in them begins what one byte is
printed as and is followed by its two digits; so the bytes can be read back. A name is told from
every other by how it is printed, a bare one from all that are in quotes, and an identifier is
printed by its name, else by its number. -/
theorem escape_and_names_readable :
    (∀ bytes, (∀ c ∈ (escape bytes).toList, 0x20 ≤ c.toNat ∧ c.toNat < 0x7f ∧ c ≠ '"') ∧
      (∀ before after, (escape bytes).toList = before ++ '\\' :: after →
        ∃ bs b bs', bytes = bs ++ b :: bs' ∧ before = (escape bs).toList ∧
          ∃ high low, after = high :: low :: (escape bs').toList ∧
            isUpperHexDigit high ∧ isUpperHexDigit low) ∧
      unescape? (escape bytes).toList = some bytes) ∧
    (∀ bytes bytes', escape bytes = escape bytes' → bytes = bytes') ∧
    (∀ name name', nameText name = nameText name' → name = name') ∧
    (∀ name name', isBareName name → nameText name ≠ quoted name') ∧
    ∀ i j : Ident, i.text = j.text ↔ (∃ name, i.name = some name ∧ j.name = some name) ∨
      i.name = none ∧ j.name = none ∧ i.id = j.id := by
  refine ⟨fun bytes => ⟨fun c hc => printable_of_mem_escape hc, fun before after h =>
    exists_of_escape_eq_append h, unescape?_escape bytes⟩, escape_injective, nameText_injective,
    fun name name' h => ?_, Ident.text_eq_text_iff_name_or_number⟩
  rw [nameText, if_pos h]
  exact (quoted_ne_of_isBareName h name').symm

theorem newline_readable :
    escape [0x61, 0x22, 0x0a] = "a\\22\\0A" ∧
    unescape? ['a', '\\', '2', '2', '\\', '0', 'A'] = some [0x61, 0x22, 0x0a] ∧
    (∃ bs b bs', [0x61, 0x22, 0x0a] = bs ++ b :: bs' ∧ ['a', '\\', '2', '2'] = (escape bs).toList ∧
      ∃ high low, ['0', 'A'] = high :: low :: (escape bs').toList ∧
        isUpperHexDigit high ∧ isUpperHexDigit low) ∧
    (∀ name, nameText name = "\"a b\"" → name = "a b") ∧
    (∀ name, nameText "a" ≠ quoted name) ∧
    (⟨some "4", none⟩ : Ident).text ≠ (⟨none, some 4⟩ : Ident).text ∧
    (⟨some "?", some 4⟩ : Ident).text ≠ Ident.anonymous.text := by
  obtain ⟨hbytes, -, hname, hbare, hident⟩ := escape_and_names_readable
  obtain ⟨-, hbackslash, hread⟩ := hbytes [0x61, 0x22, 0x0a]
  have hescape : (escape [0x61, 0x22, 0x0a]).toList = ['a', '\\', '2', '2', '\\', '0', 'A'] := by
    decide
  rw [hescape] at hread
  refine ⟨by decide, hread, hbackslash _ _ hescape, ?_, ?_, ?_, ?_⟩
  · exact fun name h => hname name "a b" (h.trans (by decide))
  · exact fun name => hbare "a" name (by decide)
  · simp [Ne, hident]
  · simp [Ne, hident, Ident.anonymous]

end IrGraph
