import IrGraph.Constant.Basic
import IrGraph.Instruction.Basic
import IrGraph.Text.Name
import IrGraph.Types.Text
import IrGraph.Proofs.Steps
import IrGraph.Proofs.Text.Escape

/-! Texts without line breaks. Whatever a name or a type is made of, it is printed on one line. -/

namespace IrGraph

def OneLine (s : String) : Prop :=
  '\n' ∉ s.toList

instance (s : String) : Decidable (OneLine s) :=
  inferInstanceAs (Decidable (_ ∉ _))

@[simp]
theorem oneLine_append {s t : String} : OneLine (s ++ t) ↔ OneLine s ∧ OneLine t := by
  simp [OneLine, not_or]

theorem oneLine_ofList {l : List Char} : OneLine (String.ofList l) ↔ '\n' ∉ l := by
  rw [OneLine, String.toList_ofList]

theorem oneLine_singleton {c : Char} : OneLine (String.singleton c) ↔ '\n' ≠ c := by
  simp [OneLine]

theorem oneLine_join {l : List String} (h : ∀ s ∈ l, OneLine s) : OneLine (String.join l) := by
  simpa [OneLine, String.toList_join] using h

theorem oneLine_intercalate {separator : String} {l : List String} (hsep : OneLine separator)
    (h : ∀ s ∈ l, OneLine s) : OneLine (separator.intercalate l) := by
  rw [OneLine, String.toList_intercalate]
  induction l with
  | nil => simp
  | cons s l ih =>
    have hs : '\n' ∉ s.toList := h s List.mem_cons_self
    have hl := ih fun t ht => h t (List.mem_cons_of_mem s ht)
    cases l with
    | nil => simpa using hs
    | cons t l =>
      rw [List.map_cons, List.map_cons, List.intercalate_cons_cons]
      simp only [List.mem_append, not_or]
      exact ⟨⟨hs, hsep⟩, hl⟩

section Numbers

theorem not_mem_toDigits (n : Nat) : '\n' ∉ Nat.toDigits 10 n := by
  intro h
  have hdigit : '\n'.isDigit := Nat.isDigit_of_mem_toDigits (by decide) (by decide) h
  exact absurd hdigit (by decide)

@[simp]
theorem oneLine_nat (n : Nat) : OneLine n.repr := by
  rw [OneLine, Nat.toList_repr]
  exact not_mem_toDigits n

@[simp]
theorem oneLine_int (i : Int) : OneLine i.repr := by
  cases i with
  | ofNat n => exact oneLine_nat n
  | negSucc n => exact oneLine_append.mpr ⟨by decide, oneLine_nat (n + 1)⟩

namespace Double

theorem oneLine_zeros (n : Nat) : OneLine (zeros n) := by
  simp [zeros, oneLine_ofList, List.mem_replicate]

theorem oneLine_positional {digits : List Char} {leading : Int} (h : '\n' ∉ digits) :
    OneLine (positional digits leading) := by
  have htake : '\n' ∉ digits.take (leading.toNat + 1) := fun hmem => h (List.mem_of_mem_take hmem)
  have hdrop : '\n' ∉ digits.drop (leading.toNat + 1) := fun hmem => h (List.mem_of_mem_drop hmem)
  unfold positional
  split
  · simp [oneLine_zeros, oneLine_ofList, h]
    decide
  · dsimp only
    split
    · simp [oneLine_zeros, oneLine_ofList, h]
      decide
    · simp [oneLine_ofList, htake, hdrop]
      decide

theorem oneLine_scientific {digits : List Char} {leading : Int} (h : '\n' ∉ digits) :
    OneLine (scientific digits leading) := by
  unfold scientific
  split
  · decide
  · simp_all [oneLine_singleton]
    decide
  · simp_all [oneLine_singleton, oneLine_ofList]
    decide

@[simp]
theorem oneLine_text (x : Double) : OneLine x.text := by
  have hmagnitude : OneLine x.magnitudeText := by
    have hdigits : '\n' ∉ (toString x.shortest.digits).toList := oneLine_nat x.shortest.digits
    unfold magnitudeText
    split
    · decide
    · dsimp only
      split
      · exact oneLine_positional hdigits
      · exact oneLine_scientific hdigits
  unfold text
  split
  · split
    · decide
    · split <;> decide
  · split
    · exact oneLine_append.mpr ⟨by decide, hmagnitude⟩
    · exact hmagnitude

end Double

end Numbers

section Names

@[simp]
theorem oneLine_escape (bytes : List UInt8) : OneLine (escape bytes) := by
  intro hmem
  obtain ⟨hlow, -⟩ := printable_of_mem_escape hmem
  exact absurd hlow (by decide)

@[simp]
theorem oneLine_quoted (s : String) : OneLine (quoted s) := by
  simp only [quoted, oneLine_append, escapeText, oneLine_escape]
  decide

@[simp]
theorem oneLine_nameText (name : String) : OneLine (nameText name) := by
  unfold nameText
  split
  case isFalse => exact oneLine_quoted name
  case isTrue h =>
    intro hmem
    have hall : ∀ c ∈ name.toList, isBareChar c := by
      unfold isBareName at h
      split at h
      case h_1 => cases h
      case h_2 c rest hname =>
        simp only [Bool.and_eq_true, List.all_eq_true] at h
        rw [hname]
        intro d hd
        rcases List.mem_cons.mp hd with rfl | hd
        · exact h.1.2
        · exact h.2 d hd
    exact absurd (hall '\n' hmem) (by decide)

@[simp]
theorem oneLine_identText (i : Ident) : OneLine i.text := by
  obtain ⟨_ | name, _ | id⟩ := i
  · decide
  · exact oneLine_nat id
  · exact oneLine_nameText name
  · exact oneLine_nameText name

end Names

@[simp]
theorem oneLine_keyword {α : Type} [Keyword α] (a : α) : OneLine (keyword a) := by
  intro hmem
  have hword := List.all_eq_true.mp (Keyword.isWord a) '\n' hmem
  exact absurd hword (by decide)

section Types

variable {t : TypeTable} {r : TypeRef} {s : String}

theorem oneLine_of_textWithin {depth : Nat} (h : t.textWithin depth r = .ok s) : OneLine s := by
  induction depth generalizing r s with
  | zero => cases h
  | succ depth ih =>
    have hlist {l : List TypeRef} {texts : List String}
        (hl : l.mapM (t.textWithin depth) = .ok texts) : ∀ s ∈ texts, OneLine s := by
      intro s hs
      obtain ⟨c, -, hc⟩ := exists_of_mem_mapM hl hs
      exact ih hc
    have hcomma : OneLine ", " := by decide
    simp only [TypeTable.textWithin, bind_eq_ok_iff] at h
    obtain ⟨type, -, h⟩ := h
    cases type with
    | void | label | token | metadata =>
      obtain rfl := pure_eq_ok_iff.mp h
      decide
    | int =>
      obtain rfl := pure_eq_ok_iff.mp h
      simp
      decide
    | float =>
      obtain rfl := pure_eq_ok_iff.mp h
      simp
    | pointer =>
      obtain rfl := pure_eq_ok_iff.mp h
      split
      · decide
      · simp
        decide
    | vector length elem scalable =>
      simp only [bind_eq_ok_iff, pure_eq_ok_iff] at h
      obtain ⟨inner, hinner, rfl⟩ := h
      cases scalable <;> simp [ih hinner] <;> decide
    | array length elem =>
      simp only [bind_eq_ok_iff, pure_eq_ok_iff] at h
      obtain ⟨inner, hinner, rfl⟩ := h
      simp [ih hinner]
      decide
    | struct fields packed =>
      simp only [bind_eq_ok_iff, pure_eq_ok_iff] at h
      obtain ⟨inner, hinner, rfl⟩ := h
      have hfields := oneLine_intercalate hcomma (hlist hinner)
      cases packed <;> simp [hfields] <;> decide
    | func result params variadic =>
      simp only [bind_eq_ok_iff, pure_eq_ok_iff] at h
      obtain ⟨head, hhead, inner, hinner, rfl⟩ := h
      have hall : ∀ s ∈ if variadic then inner ++ ["..."] else inner, OneLine s := by
        intro s hs
        split at hs
        · rcases List.mem_append.mp hs with hs | hs
          · exact hlist hinner s hs
          · obtain rfl := List.mem_singleton.mp hs
            decide
        · exact hlist hinner s hs
      have hparams := oneLine_intercalate hcomma hall
      simp [ih hhead, hparams]
      decide

theorem oneLine_of_typeText (h : t.text r = .ok s) : OneLine s :=
  oneLine_of_textWithin h

end Types

end IrGraph
