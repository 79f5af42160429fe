/-! Finite choices that are written as keywords. -/

namespace IrGraph

/-- A finite choice that is written as one word, from which the choice can be read back. -/
class Keyword (α : Type) where
  all : List α
  keyword : α → String
  find?_keyword (a : α) : all.find? (keyword · == keyword a) = some a
  isWord (a : α) : (keyword a).toList.all fun c => c.isAlphanum || c == '_'

export Keyword (keyword)

variable {α : Type} [Keyword α] {a b : α} {s : String}

def ofKeyword? (s : String) : Option α :=
  (Keyword.all : List α).find? (keyword · == s)

@[simp]
theorem ofKeyword?_keyword : ofKeyword? (keyword a) = some a :=
  Keyword.find?_keyword a

theorem ofKeyword?_eq_some_iff : ofKeyword? s = some a ↔ keyword a = s := by
  constructor
  · intro h
    have hmatch := List.find?_some h
    exact eq_of_beq hmatch
  · rintro rfl
    exact ofKeyword?_keyword

theorem keyword_injective (h : keyword a = keyword b) : a = b := by
  have hread : ofKeyword? (keyword a) = some b := ofKeyword?_eq_some_iff.mpr h.symm
  rwa [ofKeyword?_keyword, Option.some_inj] at hread

end IrGraph
