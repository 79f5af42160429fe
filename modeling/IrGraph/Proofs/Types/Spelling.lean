import Mathlib.Data.List.Forall2
import IrGraph.Types.Text
import IrGraph.Proofs.Text.Name

/-! How types are spelled, one level at a time. A type that is no function begins with a word that
says of which sort it is, and what may stand behind a type goes on with no word; so where its
components can be told apart, it can be told from every other type of this kind. -/

namespace IrGraph

section Characters

/-- Words in the text of a type are longest runs of these. -/
def isWordChar (c : Char) : Bool :=
  c.isAlphanum || c == '_' || c == '<' || c == '[' || c == '\x7b'

/-- What ends the type before it, and whatever that type is part of. -/
inductive Closes : List Char → Prop
  | round (x : List Char) : Closes (')' :: x)
  | square (x : List Char) : Closes (']' :: x)
  | angle (x : List Char) : Closes ('>' :: x)
  | curly (x : List Char) : Closes (' ' :: '\x7d' :: x)

/-- What ends the type before it. -/
inductive Stops : List Char → Prop
  | nil : Stops []
  | comma (x : List Char) : Stops (',' :: ' ' :: x)
  | close {x : List Char} (h : Closes x) : Stops x

/-- What stands behind a type: its end, or the parameters of a function that gives it. -/
inductive Follows : List Char → Prop
  | stop {x : List Char} (h : Stops x) : Follows x
  | call (x : List Char) : Follows (' ' :: '(' :: x)

variable {x : List Char}

theorem Closes.exists_cons (h : Closes x) :
    ∃ c rest, x = c :: rest ∧ ¬(isWordChar c ∨ c = '.') := by
  cases h <;> exact ⟨_, _, rfl, by decide⟩

theorem Follows.not_isWordChar (h : Follows x) : ∀ c ∈ x.head?, ¬isWordChar c := by
  rcases h with ⟨_ | _ | ⟨_ | _ | _ | _⟩⟩ | _ <;> simp [isWordChar]

theorem Stops.ne_call (h : Stops x) (y : List Char) : x ≠ ' ' :: '(' :: y := by
  rcases h with _ | _ | ⟨_ | _ | _ | _⟩ <;> simp

theorem Follows.ne_addrSpace (h : Follows x) (y : List Char) :
    x ≠ " addrspace(".toList ++ y := by
  rcases h with ⟨_ | _ | ⟨_ | _ | _ | _⟩⟩ | _ <;> simp

end Characters

section Items

variable {α : Type} {S : α → List Char → Prop} {S' : α → List Char → Prop} {a b : α}
  {l l' : List α} {us us' : List (List Char)} {u v x y : List Char}

/-- Where one text begins with an item of either sort and the item ends there, it is one item and
it ends at one place. -/
def Separable (S S' : α → List Char → Prop) : Prop :=
  ∀ a b u v x y, S a u → S' b v → Stops x → Stops y → u ++ x = v ++ y → a = b ∧ x = y

/-- A text begins with no character that can also stand behind one. -/
def Starts (S : α → List Char → Prop) : Prop :=
  ∀ a u, S a u → ∃ c rest, u = c :: rest ∧ (isWordChar c ∨ c = '.')

def StartsWord (S : α → List Char → Prop) : Prop :=
  ∀ a u, S a u → ∃ c rest, u = c :: rest ∧ isWordChar c

/-- Items with a comma between neighbours. -/
def spread (us : List (List Char)) : List Char :=
  ", ".toList.intercalate us

/-- Items with a comma before each. -/
def spreadTail (us : List (List Char)) : List Char :=
  us.flatMap (", ".toList ++ ·)

theorem StartsWord.starts (h : StartsWord S) : Starts S := by
  intro a u ha
  obtain ⟨c, rest, rfl, hc⟩ := h a u ha
  exact ⟨c, rest, rfl, .inl hc⟩

theorem spread_cons : spread (u :: us) = u ++ spreadTail us := by
  induction us generalizing u with
  | nil => simp [spread, spreadTail]
  | cons v us ih =>
    rw [spread, List.intercalate_cons_cons, ← spread, ih, spreadTail, spreadTail, List.flatMap_cons,
      List.append_assoc, List.append_assoc]

theorem stops_spreadTail_append (hx : Closes x) : Stops (spreadTail us ++ x) := by
  cases us with
  | nil => exact .close hx
  | cons u us => exact .comma _

theorem Closes.ne_comma (hx : Closes x) (y : List Char) : x ≠ ',' :: y := by
  cases hx <;> simp

theorem Starts.not_closes (hS : Starts S) (ha : S a u) (y : List Char) : ¬Closes (u ++ y) := by
  obtain ⟨c, rest, rfl, hc⟩ := hS a u ha
  intro h
  obtain ⟨c', rest', heq, hc'⟩ := h.exists_cons
  obtain rfl : c = c' := List.head_eq_of_cons_eq heq
  exact hc' hc

theorem Separable.spreadTail (h : Separable S S') (hl : List.Forall₂ S l us)
    (hl' : List.Forall₂ S' l' us') (hx : Closes x) (hy : Closes y)
    (heq : spreadTail us ++ x = IrGraph.spreadTail us' ++ y) : l = l' ∧ x = y := by
  induction hl generalizing l' us' with
  | nil =>
    cases hl' with
    | nil => exact ⟨rfl, heq⟩
    | cons _ _ => exact absurd heq (hx.ne_comma _)
  | cons ha hrest ih =>
    cases hl' with
    | nil => exact absurd heq.symm (hy.ne_comma _)
    | cons hb hrest' =>
      simp only [IrGraph.spreadTail, List.flatMap_cons, List.append_assoc,
        List.append_cancel_left_eq] at heq
      obtain ⟨rfl, htail⟩ := h _ _ _ _ _ _ ha hb (stops_spreadTail_append hx)
        (stops_spreadTail_append hy) heq
      obtain ⟨rfl, hend⟩ := ih hrest' htail
      exact ⟨rfl, hend⟩

theorem Separable.spread (h : Separable S S') (hS : Starts S) (hS' : Starts S')
    (hl : List.Forall₂ S l us) (hl' : List.Forall₂ S' l' us') (hx : Closes x) (hy : Closes y)
    (heq : spread us ++ x = IrGraph.spread us' ++ y) : l = l' ∧ x = y := by
  cases hl with
  | nil =>
    cases hl' with
    | nil => exact ⟨rfl, heq⟩
    | cons hb hrest =>
      rw [spread_cons, List.append_assoc] at heq
      obtain rfl : x = _ := heq
      exact absurd hx (hS'.not_closes hb _)
  | cons ha hrest =>
    cases hl' with
    | nil =>
      rw [spread_cons, List.append_assoc] at heq
      obtain rfl : _ = y := heq
      exact absurd hy (hS.not_closes ha _)
    | cons hb hrest' =>
      simp only [spread_cons, List.append_assoc] at heq
      obtain ⟨rfl, htail⟩ := h _ _ _ _ _ _ ha hb (stops_spreadTail_append hx)
        (stops_spreadTail_append hy) heq
      obtain ⟨rfl, hend⟩ := h.spreadTail hrest hrest' hx hy htail
      exact ⟨rfl, hend⟩

end Items

namespace IrType

def IsFunc : IrType → Prop
  | func .. => True
  | _ => False

/-- The word that the text of a type begins with, unless it is a function. -/
def word : IrType → String
  | void => "void"
  | label => "label"
  | token => "token"
  | metadata => "metadata"
  | int bits => "i" ++ bits.repr
  | float format => keyword format
  | pointer _ => "ptr"
  | vector length _ scalable => if scalable then "<vscale" else "<" ++ length.repr
  | array length _ => "[" ++ length.repr
  | struct _ packed => if packed then "<\x7b" else "\x7b"
  | func .. => ""

/-- What stands between the word and the components. -/
def opening : IrType → String
  | pointer addrSpace => if addrSpace = 0 then "" else " addrspace(" ++ addrSpace.repr ++ ")"
  | vector length _ scalable => if scalable then " x " ++ length.repr ++ " x " else " x "
  | array .. => " x "
  | struct .. => " "
  | _ => ""

/-- What stands behind the components. -/
def closing : IrType → String
  | vector .. => ">"
  | array .. => "]"
  | struct _ packed => if packed then " \x7d>" else " \x7d"
  | _ => ""

/-- The parameters of a function, with `none` for those that are not given. -/
def arguments (params : List TypeRef) (variadic : Bool) : List (Option TypeRef) :=
  params.map some ++ if variadic then [none] else []

/-- How a parameter is spelled when its type is spelled as `sub` says. -/
inductive Argument (sub : TypeRef → List Char → Prop) : Option TypeRef → List Char → Prop
  | given {r : TypeRef} {u : List Char} (h : sub r u) : Argument sub (some r) u
  | more : Argument sub none ['.', '.', '.']

/-- How a type is spelled when its components are spelled as `sub` says. -/
inductive Spelled (sub : TypeRef → List Char → Prop) : IrType → List Char → Prop
  | plain {type : IrType} {us : List (List Char)} (hfunc : ¬type.IsFunc)
      (h : List.Forall₂ sub type.components us) :
      Spelled sub type (type.word.toList ++ (type.opening.toList ++
        (spread us ++ type.closing.toList)))
  | func {result : TypeRef} {params : List TypeRef} {variadic : Bool} {head : List Char}
      {us : List (List Char)} (hhead : sub result head)
      (h : List.Forall₂ (Argument sub) (arguments params variadic) us) :
      Spelled sub (.func result params variadic) (head ++ (' ' :: '(' :: (spread us ++ [')'])))

variable {sub sub' : TypeRef → List Char → Prop} {type type' : IrType} {u v x y : List Char}

section Word

theorem all_repr (n : Nat) : n.repr.toList.all isWordChar := by
  refine List.all_eq_true.mpr fun c hc => ?_
  simp [isWordChar, Char.isAlphanum, isDigit_of_mem_repr hc]

theorem toDigits_ne_cons {c : Char} (hc : ¬c.isDigit) (n : Nat) (x : List Char) :
    Nat.toDigits 10 n ≠ c :: x := by
  intro h
  exact hc (isDigit_of_repr_eq (Nat.toList_repr.trans h))

theorem all_word (type : IrType) : type.word.toList.all isWordChar := by
  have hcons {c : Char} (hc : isWordChar c) (n : Nat) : (c :: n.repr.toList).all isWordChar := by
    rw [List.all_cons, hc, all_repr, Bool.and_self]
  cases type with
  | int bits => simpa [word] using hcons (c := 'i') (by decide) bits
  | float format => cases format <;> decide
  | vector length elem scalable =>
    cases scalable with
    | false => simpa [word] using hcons (c := '<') (by decide) length
    | true => simp [word, isWordChar]
  | array length elem => simpa [word] using hcons (c := '[') (by decide) length
  | struct fields packed => cases packed <;> simp [word, isWordChar]
  | _ => simp [word, isWordChar]

/-- Types that begin with one word. -/
inductive SameWord : IrType → IrType → Prop
  | word {type : IrType} (hcomponents : type.components = []) (hopening : type.opening = "")
      (hclosing : type.closing = "") : SameWord type type
  | pointer (m n : Nat) : SameWord (.pointer m) (.pointer n)
  | vector (n : Nat) (c d : TypeRef) : SameWord (.vector n c false) (.vector n d false)
  | scalable (m n : Nat) (c d : TypeRef) : SameWord (.vector m c true) (.vector n d true)
  | array (n : Nat) (c d : TypeRef) : SameWord (.array n c) (.array n d)
  | struct (fields fields' : List TypeRef) (packed : Bool) :
      SameWord (.struct fields packed) (.struct fields' packed)

theorem sameWord_of_word_eq (hfunc : ¬type.IsFunc) (hfunc' : ¬type'.IsFunc)
    (h : type.word.toList = type'.word.toList) : SameWord type type' := by
  rcases type with _ | _ | _ | _ | m | format | m | ⟨m, c, _ | _⟩ | ⟨m, c⟩ | ⟨fields, _ | _⟩ | _
  case func => exact absurd trivial hfunc
  all_goals
    rcases type' with _ | _ | _ | _ | n | format' | n | ⟨n, d, _ | _⟩ | ⟨n, d⟩ | ⟨fields', _ | _⟩ | _
  case void.void | label.label | token.token | metadata.metadata => exact .word rfl rfl rfl
  case int.int =>
    obtain rfl : m = n := repr_injective (String.toList_inj.mp (by simpa [word] using h))
    exact .word rfl rfl rfl
  case float.float =>
    obtain rfl := keyword_injective (String.toList_inj.mp h)
    exact .word rfl rfl rfl
  case pointer.pointer => exact .pointer m n
  case vector.false.vector.false =>
    obtain rfl : m = n := repr_injective (String.toList_inj.mp (by simpa [word] using h))
    exact .vector m c d
  case vector.true.vector.true => exact .scalable m n c d
  case array.array =>
    obtain rfl : m = n := repr_injective (String.toList_inj.mp (by simpa [word] using h))
    exact .array m c d
  case struct.false.struct.false => exact .struct fields fields' false
  case struct.true.struct.true => exact .struct fields fields' true
  case float.func => exact absurd trivial hfunc'
  -- Any other two words differ in a letter, or only one of them goes on with a digit.
  case float.void | float.label | float.token | float.metadata | float.int | float.pointer |
      float.vector.false | float.vector.true | float.array | float.struct.false |
      float.struct.true => cases format <;> simp [word, keyword] at h
  case void.float | label.float | token.float | metadata.float | int.float | pointer.float |
      vector.false.float | vector.true.float | array.float | struct.false.float |
      struct.true.float => cases format' <;> simp [word, keyword] at h
  case vector.false.vector.true | vector.false.struct.true =>
    simp [word, toDigits_ne_cons] at h
  case vector.true.vector.false | struct.true.vector.false =>
    replace h := h.symm
    simp [word, toDigits_ne_cons] at h
  all_goals simp [word] at h

end Word

section Spelled

variable {us us' : List (List Char)}

theorem exists_word (hfunc : ¬type.IsFunc) :
    ∃ c rest, type.word.toList = c :: rest ∧ isWordChar c := by
  cases hword : type.word.toList with
  | nil =>
    rcases type with _ | _ | _ | _ | _ | format | _ | ⟨_, _, _ | _⟩ | _ | ⟨_, _ | _⟩ | _
    case func => exact absurd trivial hfunc
    case float => cases format <;> simp [word, keyword] at hword
    all_goals simp [word] at hword
  | cons c rest =>
    have hall := all_word type
    rw [hword, List.all_cons, Bool.and_eq_true] at hall
    exact ⟨c, rest, rfl, hall.1⟩

theorem Spelled.startsWord (hsub : StartsWord sub) : StartsWord (Spelled sub) := by
  intro type u h
  cases h with
  | plain hfunc h =>
    obtain ⟨c, rest, hword, hc⟩ := exists_word hfunc
    exact ⟨c, _, by rw [hword, List.cons_append], hc⟩
  | func hhead h =>
    obtain ⟨c, rest, rfl, hc⟩ := hsub _ _ hhead
    exact ⟨c, _, List.cons_append, hc⟩

/-- A word ends before what stands between it and the components, or behind the type. -/
theorem not_isWordChar_behind (hfunc : ¬type.IsFunc) (h : List.Forall₂ sub type.components us)
    (hx : Follows x) : ∀ c ∈ (type.opening.toList ++ (spread us ++
      (type.closing.toList ++ x))).head?, ¬isWordChar c := by
  cases type with
  | func => exact absurd trivial hfunc
  | vector length elem scalable => cases scalable <;> simp [opening, isWordChar]
  | array length elem => simp [opening, isWordChar]
  | struct fields packed => simp [opening, isWordChar]
  | pointer addrSpace =>
    cases h
    by_cases hzero : addrSpace = 0
    · simpa [opening, closing, spread, hzero] using hx.not_isWordChar
    · simp [opening, hzero, isWordChar]
  | _ =>
    cases h
    simpa [opening, closing, spread] using hx.not_isWordChar

theorem toList_opening_pointer_append {n : Nat} (hn : n ≠ 0) (x : List Char) :
    (pointer n).opening.toList ++ x = " addrspace(".toList ++ (n.repr.toList ++ ')' :: x) := by
  simp [opening, hn]

theorem eq_of_opening_pointer {m n : Nat} (hx : Follows x) (hy : Follows y)
    (h : (pointer m).opening.toList ++ x = (pointer n).opening.toList ++ y) : m = n ∧ x = y := by
  have hround (z : List Char) : ∀ c ∈ (')' :: z).head?, ¬c.isDigit := by simp +decide
  by_cases hm : m = 0 <;> by_cases hn : n = 0
  · subst hm hn
    exact ⟨rfl, h⟩
  · subst hm
    rw [toList_opening_pointer_append hn] at h
    exact absurd h (hx.ne_addrSpace _)
  · subst hn
    rw [toList_opening_pointer_append hm] at h
    exact absurd h.symm (hy.ne_addrSpace _)
  · rw [toList_opening_pointer_append hm, toList_opening_pointer_append hn,
      List.append_cancel_left_eq] at h
    obtain ⟨rfl, hend⟩ := repr_append_inj (hround x) (hround y) h
    exact ⟨rfl, (List.cons.inj hend).2⟩

/-- Types that are no functions and begin one text are one type. -/
theorem eq_of_plain (hsep : Separable sub sub') (hsub : StartsWord sub) (hsub' : StartsWord sub')
    (hfunc : ¬type.IsFunc) (hfunc' : ¬type'.IsFunc) (h : List.Forall₂ sub type.components us)
    (h' : List.Forall₂ sub' type'.components us') (hx : Follows x) (hy : Follows y)
    (heq : type.word.toList ++ (type.opening.toList ++ (spread us ++ (type.closing.toList ++ x))) =
      type'.word.toList ++ (type'.opening.toList ++ (spread us' ++ (type'.closing.toList ++ y)))) :
    type = type' ∧ x = y := by
  have hspace (z : List Char) : ∀ c ∈ (' ' :: z).head?, ¬c.isDigit := by simp +decide
  obtain ⟨hword, hrest⟩ := append_inj_of_all (all_word type) (all_word type')
    (not_isWordChar_behind hfunc h hx) (not_isWordChar_behind hfunc' h' hy) heq
  rcases sameWord_of_word_eq hfunc hfunc' hword
  case word hcomponents hopening hclosing =>
    rw [hcomponents] at h h'
    cases h
    cases h'
    simpa [hopening, hclosing] using hrest
  case pointer m n =>
    cases h
    cases h'
    obtain ⟨rfl, hend⟩ := eq_of_opening_pointer hx hy hrest
    exact ⟨rfl, hend⟩
  case vector n c d =>
    obtain ⟨⟨⟩, hend⟩ := hsep.spread hsub.starts hsub'.starts h h' (.angle x) (.angle y)
      (by simpa [opening, closing] using hrest)
    exact ⟨rfl, (List.cons.inj hend).2⟩
  case scalable m n c d =>
    have hnumber : m.repr.toList ++ ([' ', 'x', ' '] ++ (spread us ++ '>' :: x)) =
        n.repr.toList ++ ([' ', 'x', ' '] ++ (spread us' ++ '>' :: y)) := by
      simpa [opening, closing] using hrest
    obtain ⟨rfl, hinner⟩ := repr_append_inj (hspace _) (hspace _) hnumber
    obtain ⟨⟨⟩, hend⟩ := hsep.spread hsub.starts hsub'.starts h h' (.angle x) (.angle y)
      ((List.append_right_inj [' ', 'x', ' ']).mp hinner)
    exact ⟨rfl, (List.cons.inj hend).2⟩
  case array n c d =>
    obtain ⟨⟨⟩, hend⟩ := hsep.spread hsub.starts hsub'.starts h h' (.square x) (.square y)
      (by simpa [opening, closing] using hrest)
    exact ⟨rfl, (List.cons.inj hend).2⟩
  case struct fields fields' packed =>
    have hclose (z : List Char) : Closes ((struct fields packed).closing.toList ++ z) := by
      cases packed <;> simp [closing, Closes.curly]
    obtain ⟨rfl, hend⟩ := hsep.spread hsub.starts hsub'.starts h h' (hclose x) (hclose y)
      (by simpa [opening, closing] using hrest)
    exact ⟨rfl, List.append_cancel_left hend⟩

end Spelled

section Arguments

theorem arguments_inj {params params' : List TypeRef} {variadic variadic' : Bool}
    (h : arguments params variadic = arguments params' variadic') :
    params = params' ∧ variadic = variadic' := by
  have hinj : Function.Injective (List.map (some : TypeRef → Option TypeRef)) :=
    List.map_injective_iff.mpr fun _ _ => Option.some.inj
  have hmore (params params' : List TypeRef) :
      arguments params true ≠ arguments params' false := by
    intro h
    have hmem : none ∈ arguments params' false := h ▸ List.mem_append_right _ List.mem_cons_self
    simp [arguments] at hmem
  cases variadic <;> cases variadic'
  · exact ⟨hinj (List.append_cancel_right h), rfl⟩
  · exact absurd h.symm (hmore _ _)
  · exact absurd h (hmore _ _)
  · exact ⟨hinj (List.append_cancel_right h), rfl⟩

theorem Argument.starts (hsub : StartsWord sub) : Starts (Argument sub) := by
  intro a u ha
  cases ha with
  | given ha => exact hsub.starts _ u ha
  | more => exact ⟨'.', _, rfl, .inr rfl⟩

theorem Argument.separable (hsep : Separable sub sub') (hsub : StartsWord sub)
    (hsub' : StartsWord sub') : Separable (Argument sub) (Argument sub') := by
  have hdot {c : Char} {rest : List Char} (hc : isWordChar c) (v : List Char) :
      c :: rest ≠ '.' :: v := by
    intro h
    obtain rfl : c = '.' := List.head_eq_of_cons_eq h
    exact absurd hc (by decide)
  intro a b u v x y ha hb hx hy heq
  cases ha with
  | given ha =>
    cases hb with
    | given hb =>
      obtain ⟨rfl, hend⟩ := hsep _ _ _ _ _ _ ha hb hx hy heq
      exact ⟨rfl, hend⟩
    | more =>
      obtain ⟨c, rest, rfl, hc⟩ := hsub _ _ ha
      exact absurd heq (hdot hc _)
  | more =>
    cases hb with
    | given hb =>
      obtain ⟨c, rest, rfl, hc⟩ := hsub' _ _ hb
      exact absurd heq.symm (hdot hc _)
    | more => exact ⟨rfl, List.append_cancel_left heq⟩

end Arguments

end IrType

end IrGraph
