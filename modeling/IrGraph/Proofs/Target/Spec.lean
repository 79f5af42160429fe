import IrGraph.Proofs.Steps
import IrGraph.Proofs.Target.Number
import IrGraph.Target.Descriptor
import IrGraph.Target.Text

/-! Every specification has a text that is read as that specification, and the text of a layout
is made of such texts. -/

namespace IrGraph

section Split

variable {separator : Char} {part rest : List Char} {parts : List (List Char)}

theorem splitAtEach_ne_nil (separator : Char) (text : List Char) :
    splitAtEach separator text ≠ [] := by
  cases text with
  | nil => simp [splitAtEach]
  | cons c rest =>
    rw [splitAtEach]
    split
    · simp
    · split <;> simp

theorem splitAtEach_append_separator (h : separator ∉ part) :
    splitAtEach separator (part ++ separator :: rest) = part :: splitAtEach separator rest := by
  induction part with
  | nil =>
    rw [List.nil_append, splitAtEach]
    split
    case h_1 hnil => exact absurd hnil (splitAtEach_ne_nil separator rest)
    case h_2 first others hcons => rw [if_pos rfl, hcons]
  | cons c part ih =>
    obtain ⟨hc, hpart⟩ := List.ne_and_not_mem_of_not_mem_cons h
    rw [List.cons_append, splitAtEach, ih hpart]
    exact if_neg (Ne.symm hc)

theorem splitAtEach_of_not_mem (h : separator ∉ part) : splitAtEach separator part = [part] := by
  induction part with
  | nil => rfl
  | cons c part ih =>
    obtain ⟨hc, hpart⟩ := List.ne_and_not_mem_of_not_mem_cons h
    rw [splitAtEach, ih hpart]
    exact if_neg (Ne.symm hc)

theorem splitAtEach_intercalate (hne : parts ≠ []) (h : ∀ part ∈ parts, separator ∉ part) :
    splitAtEach separator ([separator].intercalate parts) = parts := by
  induction parts with
  | nil => exact absurd rfl hne
  | cons part parts ih =>
    have hpart := h part List.mem_cons_self
    cases parts with
    | nil => rw [List.intercalate_singleton, splitAtEach_of_not_mem hpart]
    | cons next parts =>
      rw [List.intercalate_cons_cons, List.append_assoc, List.singleton_append,
        splitAtEach_append_separator hpart,
        ih (by simp) fun p hp => h p (List.mem_cons_of_mem part hp)]

theorem mem_intercalate {c : Char} (h : c ∈ [separator].intercalate parts) :
    c = separator ∨ ∃ part ∈ parts, c ∈ part := by
  induction parts with
  | nil => simp at h
  | cons part parts ih =>
    cases parts with
    | nil => exact Or.inr ⟨part, List.mem_cons_self, by simpa using h⟩
    | cons next parts =>
      simp only [List.intercalate_cons_cons, List.mem_append, List.mem_singleton] at h
      rcases h with (h | rfl) | h
      · exact Or.inr ⟨part, List.mem_cons_self, h⟩
      · exact Or.inl rfl
      · obtain h | ⟨p, hp, hc⟩ := ih h
        · exact Or.inl h
        · exact Or.inr ⟨p, List.mem_cons_of_mem part hp, hc⟩

theorem intercalate_cons_eq_append_flatMap :
    [separator].intercalate (part :: parts) = part ++ parts.flatMap (separator :: ·) := by
  induction parts generalizing part with
  | nil => simp
  | cons next parts ih => simp [ih]

end Split

namespace LayoutSpec

def digits (n : UInt64) : List Char :=
  (numberText n).toList

def colonJoined (fields : List (List Char)) : List Char :=
  [':'].intercalate fields

/-- A field and the numbers behind it. -/
def fieldChars (tag : List Char) (ns : List UInt64) : List Char :=
  colonJoined (tag :: ns.map digits)

/-- A text that is read as the specification. -/
def chars : LayoutSpec → List Char
  | bigEndian b => if b then ['E'] else ['e']
  | stackAlignment n => 'S' :: digits n
  | programAddrSpace n => 'P' :: digits n
  | globalAddrSpace n => 'G' :: digits n
  | allocaAddrSpace n => 'A' :: digits n
  | pointer a p =>
    'p' :: fieldChars (if a = 0 then [] else digits a) [p.size, p.abi, p.pref, p.index]
  | integer size a => 'i' :: fieldChars (digits size) [a.abi, a.pref]
  | vector size a => 'v' :: fieldChars (digits size) [a.abi, a.pref]
  | float size a => 'f' :: fieldChars (digits size) [a.abi, a.pref]
  | aggregate a => 'a' :: fieldChars [] [a.abi, a.pref]
  | functionPointer a => 'F' :: (if a.independent then 'i' else 'n') :: digits a.abi
  | mangling m => 'm' :: ':' :: (keyword m).toList
  | nativeIntWidths ns => 'n' :: colonJoined (ns.map digits)
  | nonIntegralAddrSpaces ns => 'n' :: 'i' :: fieldChars [] ns
  | unrecognised => []

theorem digits_ne_nil (n : UInt64) : digits n ≠ [] :=
  numberText_ne_nil n

theorem not_mem_digits {c : Char} (hc : ¬ c.isDigit) (n : UInt64) : c ∉ digits n := fun h =>
  hc (isDigit_of_mem_numberText h)

theorem not_mem_map_digits {c : Char} (hc : ¬ c.isDigit) (ns : List UInt64) :
    ∀ field ∈ ns.map digits, c ∉ field := by
  intro field hfield
  obtain ⟨n, -, rfl⟩ := List.mem_map.mp hfield
  exact not_mem_digits hc n

theorem not_mem_colonJoined {c : Char} {fields : List (List Char)} (hc : c ≠ ':')
    (h : ∀ field ∈ fields, c ∉ field) : c ∉ colonJoined fields := by
  intro hmem
  obtain hcolon | ⟨field, hfield, hin⟩ := mem_intercalate hmem
  · exact hc hcolon
  · exact h field hfield hin

theorem colon_not_mem_digits (n : UInt64) : ':' ∉ digits n :=
  not_mem_digits (by decide) n

theorem hyphen_not_mem_digits (n : UInt64) : '-' ∉ digits n :=
  not_mem_digits (by decide) n

theorem hyphen_not_mem_fieldChars {tag : List Char} (htag : '-' ∉ tag) (ns : List UInt64) :
    '-' ∉ fieldChars tag ns :=
  not_mem_colonJoined (by decide)
    (List.forall_mem_cons.mpr ⟨htag, not_mem_map_digits (by decide) ns⟩)

theorem splitAtEach_fieldChars {tag : List Char} (htag : ':' ∉ tag) (ns : List UInt64) :
    splitAtEach ':' (fieldChars tag ns) = tag :: ns.map digits :=
  splitAtEach_intercalate (by simp)
    (List.forall_mem_cons.mpr ⟨htag, not_mem_map_digits (by decide) ns⟩)

theorem number_digits (spec : List Char) (n : UInt64) : number spec (digits n) = .ok n := by
  rw [number, digits, readNumber_numberText]

theorem mapM_number_digits (spec : List Char) (ns : List UInt64) :
    (ns.map digits).mapM (number spec) = .ok ns :=
  mapM_map_eq_self fun n _ => number_digits spec n

theorem filter_map_digits (ns : List UInt64) :
    (ns.map digits).filter (!·.isEmpty) = ns.map digits := by
  refine List.filter_eq_self.mpr fun field hfield => ?_
  obtain ⟨n, -, rfl⟩ := List.mem_map.mp hfield
  simp [digits_ne_nil n]

theorem numberList_colonJoined (spec : List Char) (ns : List UInt64) :
    numberList spec (colonJoined (ns.map digits)) = .ok ns := by
  cases ns with
  | nil => rfl
  | cons n ns =>
    have hsplit : splitAtEach ':' (colonJoined ((n :: ns).map digits)) = (n :: ns).map digits :=
      splitAtEach_fieldChars (colon_not_mem_digits n) ns
    rw [numberList, hsplit, filter_map_digits, mapM_number_digits]

theorem numberList_fieldChars (spec : List Char) (ns : List UInt64) :
    numberList spec (fieldChars [] ns) = .ok ns := by
  rw [numberList, splitAtEach_fieldChars (by simp), List.filter_cons_of_neg (by simp),
    filter_map_digits, mapM_number_digits]

theorem alignment_digits (spec : List Char) (a : AlignSpec) :
    alignment spec [digits a.abi, digits a.pref] = .ok a := by
  simp [alignment, required, optional, number_digits, bind, Except.bind, pure, Except.pure]

theorem pointerSpec_digits (spec : List Char) (p : PointerSpec) :
    pointerSpec spec [digits p.size, digits p.abi, digits p.pref, digits p.index] = .ok p := by
  simp [pointerSpec, required, optional, number_digits, bind, Except.bind, pure, Except.pure]

theorem parse_chars (s : LayoutSpec) : parse s.chars = .ok s := by
  cases s with
  | bigEndian b => cases b <;> rfl
  | stackAlignment n | programAddrSpace n | globalAddrSpace n | allocaAddrSpace n =>
    simp [parse, chars, number_digits, bind, Except.bind, pure, Except.pure]
  | pointer a p =>
    by_cases ha : a = 0
    · simp [parse, chars, ha, splitAtEach_fieldChars, pointerSpec_digits, bind, Except.bind, pure,
        Except.pure]
    · simp [parse, chars, ha, splitAtEach_fieldChars, colon_not_mem_digits, digits_ne_nil,
        number_digits, pointerSpec_digits, bind, Except.bind, pure, Except.pure]
  | integer size a | vector size a | float size a =>
    simp [parse, chars, splitAtEach_fieldChars, colon_not_mem_digits, number_digits,
      alignment_digits, bind, Except.bind, pure, Except.pure]
  | aggregate a =>
    simp [parse, chars, splitAtEach_fieldChars, alignment_digits, bind, Except.bind, pure,
      Except.pure]
  | functionPointer a =>
    obtain ⟨independent, abi⟩ := a
    cases independent <;>
      simp [parse, chars, number_digits, bind, Except.bind, pure, Except.pure]
  | mangling m => cases m <;> rfl
  | nativeIntWidths ns =>
    have hi : 'i' ∉ colonJoined (ns.map digits) :=
      not_mem_colonJoined (by decide) (not_mem_map_digits (by decide) ns)
    have hread := numberList_colonJoined ('n' :: colonJoined (ns.map digits)) ns
    simp only [parse, chars]
    split
    case h_1 list hlist => simp [hlist] at hi
    case h_2 => rw [hread]; rfl
  | nonIntegralAddrSpaces ns =>
    simp [parse, chars, numberList_fieldChars, bind, Except.bind, pure, Except.pure]
  | unrecognised => rfl

theorem hyphen_not_mem_chars (s : LayoutSpec) : '-' ∉ s.chars := by
  cases s with
  | bigEndian b => cases b <;> decide
  | pointer a p =>
    have htag : '-' ∉ if a = 0 then [] else digits a := by
      split <;> simp [hyphen_not_mem_digits]
    simp [chars, hyphen_not_mem_fieldChars htag]
  | functionPointer a => cases h : a.independent <;> simp [chars, h, hyphen_not_mem_digits]
  | mangling m => cases m <;> decide
  | nativeIntWidths ns =>
    have hjoined : '-' ∉ colonJoined (ns.map digits) :=
      not_mem_colonJoined (by decide) (not_mem_map_digits (by decide) ns)
    simp [chars, hjoined]
  | _ => simp [chars, hyphen_not_mem_digits, hyphen_not_mem_fieldChars]

/-- Specifications, each with the hyphen in front of it. -/
def hyphenated (specs : List LayoutSpec) : List Char :=
  specs.flatMap fun s => '-' :: s.chars

@[simp]
theorem hyphenated_append (specs specs' : List LayoutSpec) :
    hyphenated (specs ++ specs') = hyphenated specs ++ hyphenated specs' :=
  List.flatMap_append

theorem mapM_parse_split (first : LayoutSpec) (specs : List LayoutSpec) :
    (splitAtEach '-' (first.chars ++ hyphenated specs)).mapM parse = .ok (first :: specs) := by
  have htext : first.chars ++ hyphenated specs = ['-'].intercalate ((first :: specs).map chars) := by
    rw [List.map_cons, intercalate_cons_eq_append_flatMap, List.flatMap_map]
    rfl
  have hsplit : splitAtEach '-' (first.chars ++ hyphenated specs) = (first :: specs).map chars := by
    rw [htext]
    refine splitAtEach_intercalate (by simp) fun part hpart => ?_
    obtain ⟨s, -, rfl⟩ := List.mem_map.mp hpart
    exact hyphen_not_mem_chars s
  rw [hsplit, mapM_map_eq_self fun s _ => parse_chars s]

end LayoutSpec

namespace Layout

open LayoutSpec

/-- A specification that is left out when what it says is absent. -/
def specUnless (absent : Prop) [Decidable absent] (s : LayoutSpec) : List LayoutSpec :=
  if absent then [] else [s]

def tableSpecs {α : Type} (spec : UInt64 → α → LayoutSpec) (t : Table α) : List LayoutSpec :=
  t.rows.map fun row => spec row.1 row.2

/-- What the text of a layout says behind the byte order. -/
def specs (l : Layout) : List LayoutSpec :=
  specUnless (l.stackAlignment = 0) (.stackAlignment l.stackAlignment) ++
    specUnless (l.programAddrSpace = 0) (.programAddrSpace l.programAddrSpace) ++
    specUnless (l.globalAddrSpace = 0) (.globalAddrSpace l.globalAddrSpace) ++
    specUnless (l.allocaAddrSpace = 0) (.allocaAddrSpace l.allocaAddrSpace) ++
    tableSpecs .pointer l.pointers ++ tableSpecs .integer l.integers ++
    tableSpecs .vector l.vectors ++ tableSpecs .float l.floats ++ [.aggregate l.aggregate] ++
    l.functionPointer.toList.map .functionPointer ++ l.mangling.toList.map .mangling ++
    specUnless l.nativeIntWidths.isEmpty (.nativeIntWidths l.nativeIntWidths) ++
    specUnless l.nonIntegralAddrSpaces.isEmpty (.nonIntegralAddrSpaces l.nonIntegralAddrSpaces)

theorem toList_specText (s : String) : (specText s).toList = '-' :: s.toList := by
  simp [specText]

theorem toList_scalarText {letter : String} {s : LayoutSpec} {n : UInt64}
    (h : s.chars = letter.toList ++ digits n) :
    (scalarText letter n).toList = hyphenated (specUnless (n = 0) s) := by
  unfold scalarText specUnless
  split
  · rfl
  · simp [toList_specText, hyphenated, h, digits]

theorem toList_pointersText (t : Table PointerSpec) :
    (String.join (t.rows.map pointerText)).toList = hyphenated (tableSpecs .pointer t) := by
  simp [pointerText, toList_specText, hyphenated, tableSpecs, List.flatMap_map, chars, fieldChars,
    colonJoined, digits, apply_ite String.toList]

theorem toList_alignText (a : AlignSpec) : (alignText a).toList = fieldChars [] [a.abi, a.pref] := by
  simp [alignText, fieldChars, colonJoined, digits]

theorem toList_tableText (letter : String) (spec : UInt64 → AlignSpec → LayoutSpec)
    (h : ∀ n a, (spec n a).chars = letter.toList ++ fieldChars (digits n) [a.abi, a.pref])
    (t : Table AlignSpec) : (tableText letter t).toList = hyphenated (tableSpecs spec t) := by
  simp [tableText, toList_specText, hyphenated, tableSpecs, List.flatMap_map, h, alignText,
    fieldChars, colonJoined, digits]

theorem toList_functionPointerText (o : Option FuncPointerAlign) :
    (functionPointerText o).toList = hyphenated (o.toList.map .functionPointer) := by
  cases o with
  | none => rfl
  | some a =>
    cases h : a.independent <;>
      simp [functionPointerText, toList_specText, hyphenated, chars, h, digits]

theorem toList_manglingText (o : Option Mangling) :
    (manglingText o).toList = hyphenated (o.toList.map .mangling) := by
  cases o with
  | none => rfl
  | some m => simp [manglingText, toList_specText, hyphenated, chars]

theorem toList_listText {start : String} {s : LayoutSpec} {ns : List UInt64}
    (h : ns ≠ [] → s.chars = start.toList ++ colonJoined (ns.map digits)) :
    (listText start ns).toList = hyphenated (specUnless ns.isEmpty s) := by
  unfold listText specUnless
  split
  case isTrue => rfl
  case isFalse hns =>
    have hchars := h (by simpa using hns)
    have hdigits : ns.map (String.toList ∘ numberText) = ns.map digits := rfl
    simp [toList_specText, hyphenated, hchars, colonJoined, hdigits]

theorem toList_text (l : Layout) :
    l.text.toList = (LayoutSpec.bigEndian l.bigEndian).chars ++ hyphenated l.specs := by
  have hendian : (if l.bigEndian then "E" else "e").toList =
      (LayoutSpec.bigEndian l.bigEndian).chars := by
    cases l.bigEndian <;> rfl
  have haggregate : (specText ("a" ++ alignText l.aggregate)).toList =
      hyphenated [.aggregate l.aggregate] := by
    simp [toList_specText, toList_alignText, hyphenated, chars]
  have hstack : (scalarText "S" l.stackAlignment).toList =
      hyphenated (specUnless (l.stackAlignment = 0) (.stackAlignment l.stackAlignment)) :=
    toList_scalarText (by simp [chars])
  have hprogram : (scalarText "P" l.programAddrSpace).toList =
      hyphenated (specUnless (l.programAddrSpace = 0) (.programAddrSpace l.programAddrSpace)) :=
    toList_scalarText (by simp [chars])
  have hglobal : (scalarText "G" l.globalAddrSpace).toList =
      hyphenated (specUnless (l.globalAddrSpace = 0) (.globalAddrSpace l.globalAddrSpace)) :=
    toList_scalarText (by simp [chars])
  have halloca : (scalarText "A" l.allocaAddrSpace).toList =
      hyphenated (specUnless (l.allocaAddrSpace = 0) (.allocaAddrSpace l.allocaAddrSpace)) :=
    toList_scalarText (by simp [chars])
  have hnative : (listText "n" l.nativeIntWidths).toList =
      hyphenated (specUnless l.nativeIntWidths.isEmpty (.nativeIntWidths l.nativeIntWidths)) :=
    toList_listText fun _ => by simp [chars]
  have hnonIntegral : (listText "ni:" l.nonIntegralAddrSpaces).toList =
      hyphenated (specUnless l.nonIntegralAddrSpaces.isEmpty
        (.nonIntegralAddrSpaces l.nonIntegralAddrSpaces)) :=
    toList_listText fun hne => by
      simp [chars, fieldChars, colonJoined, List.intercalate_cons_of_ne_nil, hne]
  simp only [text, String.toList_append, hendian, hstack, hprogram, hglobal, halloca,
    toList_pointersText, toList_tableText "i" .integer (by simp [chars]),
    toList_tableText "v" .vector (by simp [chars]), toList_tableText "f" .float (by simp [chars]),
    haggregate, toList_functionPointerText, toList_manglingText, hnative, hnonIntegral, specs,
    hyphenated_append, List.append_assoc]

theorem parse_text_eq_foldl (l : Layout) (os arch : String) :
    parse l.text os arch =
      .ok (l.specs.foldl apply { default os arch with bigEndian := l.bigEndian }) := by
  rw [parse, toList_text, mapM_parse_split]
  simp only [bind, Except.bind, pure, Except.pure, List.foldl_cons, apply]

end Layout

end IrGraph
