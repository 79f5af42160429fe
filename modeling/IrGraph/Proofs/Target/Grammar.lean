import IrGraph.Proofs.Steps
import IrGraph.Proofs.Target.Spec
import IrGraph.Target.Descriptor

/-! The grammar of descriptors. A specification is read exactly when it has one of the forms below,
and a descriptor when all its specifications are; else the first other one is the error. -/

namespace IrGraph

/-- The specification that an error is about. -/
def LayoutError.spec : LayoutError → String
  | invalidNumber spec _ | missingField spec | unknownFunctionPointerKind spec
  | unknownMangling spec => spec

namespace LayoutSpec

/-- Alignments in fields: the preferred one is the required one unless given. -/
inductive MeansAlignment : List (List Char) → AlignSpec → Prop
  | required {abi : List Char} {a : UInt64} (habi : Numeral abi a) : MeansAlignment [abi] ⟨a, a⟩
  | preferred {abi pref : List Char} {a p : UInt64} {more : List (List Char)}
      (habi : Numeral abi a) (hpref : Numeral pref p) : MeansAlignment (abi :: pref :: more) ⟨a, p⟩

/-- A pointer in fields: the index is as large as the pointer unless given. -/
inductive MeansPointer : List (List Char) → PointerSpec → Prop
  | required {size abi : List Char} {s a : UInt64} (hsize : Numeral size s)
      (habi : Numeral abi a) : MeansPointer [size, abi] ⟨s, a, a, s⟩
  | preferred {size abi pref : List Char} {s a p : UInt64} (hsize : Numeral size s)
      (habi : Numeral abi a) (hpref : Numeral pref p) : MeansPointer [size, abi, pref] ⟨s, a, p, s⟩
  | index {size abi pref index : List Char} {s a p x : UInt64} {more : List (List Char)}
      (hsize : Numeral size s) (habi : Numeral abi a) (hpref : Numeral pref p)
      (hindex : Numeral index x) : MeansPointer (size :: abi :: pref :: index :: more) ⟨s, a, p, x⟩

/-- Entries between colons, of which the empty ones do not count. -/
def MeansList (text : List Char) (ns : List UInt64) : Prop :=
  List.Forall₂ Numeral ((splitAtEach ':' text).filter (!·.isEmpty)) ns

/-- Letters that a number follows. -/
def scalars : List (Char × (UInt64 → LayoutSpec)) :=
  [('S', stackAlignment), ('P', programAddrSpace), ('G', globalAddrSpace), ('A', allocaAddrSpace)]

/-- Letters of tables that are keyed by a size. -/
def sized : List (Char × (UInt64 → AlignSpec → LayoutSpec)) :=
  [('i', integer), ('v', vector), ('f', float)]

/-- Letters that something is said with. -/
def letters : List Char :=
  ['e', 'E', 'S', 'P', 'G', 'A', 'p', 'i', 'v', 'f', 'a', 'F', 'm', 'n']

/-- What a specification of the right form says. -/
inductive Means : List Char → LayoutSpec → Prop
  | empty : Means [] unrecognised
  | other {letter : Char} {rest : List Char} (h : letter ∉ letters) :
      Means (letter :: rest) unrecognised
  | byteOrder {letter : Char} {big : Bool} (h : (letter, big) ∈ [('e', false), ('E', true)]) :
      Means [letter] (bigEndian big)
  | afterByteOrder {letter : Char} {rest : List Char} (h : letter ∈ ['e', 'E']) (hne : rest ≠ []) :
      Means (letter :: rest) unrecognised
  | scalar {letter : Char} {spec : UInt64 → LayoutSpec} {text : List Char} {n : UInt64}
      (h : (letter, spec) ∈ scalars) (hn : Numeral text n) : Means (letter :: text) (spec n)
  | pointer {rest tag : List Char} {fields : List (List Char)} {a : UInt64} {p : PointerSpec}
      (h : splitAtEach ':' rest = tag :: fields) (ha : tag = [] ∧ a = 0 ∨ Numeral tag a)
      (hp : MeansPointer fields p) : Means ('p' :: rest) (pointer a p)
  | sized {letter : Char} {spec : UInt64 → AlignSpec → LayoutSpec} {rest tag : List Char}
      {fields : List (List Char)} {size : UInt64} {a : AlignSpec} (h : (letter, spec) ∈ sized)
      (hrest : splitAtEach ':' rest = tag :: fields) (hsize : Numeral tag size)
      (ha : MeansAlignment fields a) : Means (letter :: rest) (spec size a)
  | aggregate {rest tag : List Char} {fields : List (List Char)} {a : AlignSpec}
      (h : splitAtEach ':' rest = tag :: fields) (ha : MeansAlignment fields a) :
      Means ('a' :: rest) (aggregate a)
  | functionPointer {letter : Char} {independent : Bool} {text : List Char} {n : UInt64}
      (h : (letter, independent) ∈ [('i', true), ('n', false)]) (hn : Numeral text n) :
      Means ('F' :: letter :: text) (functionPointer ⟨independent, n⟩)
  | mangling {rest tag : List Char} {more : List (List Char)} {m : Mangling}
      (h : splitAtEach ':' rest = tag :: (keyword m).toList :: more) :
      Means ('m' :: rest) (mangling m)
  | nativeIntWidths {text : List Char} {ns : List UInt64} (h : MeansList text ns) :
      Means ('n' :: text) (nativeIntWidths ns)
  | nonIntegralAddrSpaces {text : List Char} {ns : List UInt64} (h : MeansList text ns) :
      Means ('n' :: 'i' :: text) (nonIntegralAddrSpaces ns)

section Fields

variable {spec text : List Char} {fields : List (List Char)} {n : UInt64} {a : AlignSpec}
  {p : PointerSpec} {ns : List UInt64}

theorem number_eq_ok_iff : number spec text = .ok n ↔ Numeral text n := by
  rw [← readNumber_eq_ok_iff, number]
  split <;> simp_all

theorem alignment_eq_ok_iff : alignment spec fields = .ok a ↔ MeansAlignment fields a := by
  constructor
  · intro h
    simp only [alignment, bind_eq_ok_iff, pure_eq_ok_iff] at h
    obtain ⟨abi, habi, pref, hpref, rfl⟩ := h
    obtain _ | ⟨first, _ | ⟨second, more⟩⟩ := fields
    · cases habi
    · obtain rfl : abi = pref := by simpa [optional] using hpref
      exact .required (number_eq_ok_iff.mp habi)
    · exact .preferred (number_eq_ok_iff.mp habi) (number_eq_ok_iff.mp hpref)
  · intro h
    simp only [alignment, bind_eq_ok_iff, pure_eq_ok_iff]
    cases h with
    | required habi => exact ⟨_, number_eq_ok_iff.mpr habi, _, rfl, rfl⟩
    | preferred habi hpref =>
      exact ⟨_, number_eq_ok_iff.mpr habi, _, number_eq_ok_iff.mpr hpref, rfl⟩

theorem pointerSpec_eq_ok_iff : pointerSpec spec fields = .ok p ↔ MeansPointer fields p := by
  constructor
  · intro h
    simp only [pointerSpec, bind_eq_ok_iff, pure_eq_ok_iff] at h
    obtain ⟨size, hsize, abi, habi, pref, hpref, index, hindex, rfl⟩ := h
    obtain _ | ⟨first, _ | ⟨second, _ | ⟨third, _ | ⟨fourth, more⟩⟩⟩⟩ := fields
    · cases hsize
    · cases habi
    · obtain rfl : abi = pref := by simpa [optional] using hpref
      obtain rfl : size = index := by simpa [optional] using hindex
      exact .required (number_eq_ok_iff.mp hsize) (number_eq_ok_iff.mp habi)
    · obtain rfl : size = index := by simpa [optional] using hindex
      exact .preferred (number_eq_ok_iff.mp hsize) (number_eq_ok_iff.mp habi)
        (number_eq_ok_iff.mp hpref)
    · exact .index (number_eq_ok_iff.mp hsize) (number_eq_ok_iff.mp habi)
        (number_eq_ok_iff.mp hpref) (number_eq_ok_iff.mp hindex)
  · intro h
    simp only [pointerSpec, bind_eq_ok_iff, pure_eq_ok_iff]
    cases h with
    | required hsize habi =>
      exact ⟨_, number_eq_ok_iff.mpr hsize, _, number_eq_ok_iff.mpr habi, _, rfl, _, rfl, rfl⟩
    | preferred hsize habi hpref =>
      exact ⟨_, number_eq_ok_iff.mpr hsize, _, number_eq_ok_iff.mpr habi, _,
        number_eq_ok_iff.mpr hpref, _, rfl, rfl⟩
    | index hsize habi hpref hindex =>
      exact ⟨_, number_eq_ok_iff.mpr hsize, _, number_eq_ok_iff.mpr habi, _,
        number_eq_ok_iff.mpr hpref, _, number_eq_ok_iff.mpr hindex, rfl⟩

theorem numberList_eq_ok_iff : numberList spec text = .ok ns ↔ MeansList text ns := by
  simp only [numberList, mapM_eq_ok_iff, number_eq_ok_iff, MeansList]

end Fields

theorem not_meansList_letter {text : List Char} {ns : List UInt64} : ¬ MeansList ('i' :: text) ns := by
  intro h
  obtain ⟨part, parts, hparts⟩ := List.exists_cons_of_ne_nil (splitAtEach_ne_nil ':' text)
  have hsplit : splitAtEach ':' ('i' :: text) = ('i' :: part) :: parts := by
    rw [splitAtEach, hparts]
    rfl
  rw [MeansList, hsplit, List.filter_cons_of_pos (by rfl)] at h
  cases h with
  | cons hfirst =>
    obtain ⟨digits, rfl | h, -, hdigit, -⟩ := hfirst
    · exact absurd (hdigit 'i' List.mem_cons_self) (by decide)
    · cases h

section Reading

variable {letter : Char} {rest tag text : List Char} {fields : List (List Char)} {s : LayoutSpec}

theorem means_of_scalar {spec : UInt64 → LayoutSpec} (h : (letter, spec) ∈ scalars)
    (hs : (do return spec (← number (letter :: rest) rest)) = .ok s) : Means (letter :: rest) s := by
  simp only [bind_eq_ok_iff, pure_eq_ok_iff, number_eq_ok_iff] at hs
  obtain ⟨n, hn, rfl⟩ := hs
  exact .scalar h hn

theorem means_of_sized {spec : UInt64 → AlignSpec → LayoutSpec} (h : (letter, spec) ∈ sized)
    (hfields : splitAtEach ':' rest = tag :: fields)
    (hs : (do
      let size ← number (letter :: rest) tag
      return spec size (← alignment (letter :: rest) fields)) = .ok s) :
    Means (letter :: rest) s := by
  simp only [bind_eq_ok_iff, pure_eq_ok_iff, number_eq_ok_iff, alignment_eq_ok_iff] at hs
  obtain ⟨size, hsize, a, ha, rfl⟩ := hs
  exact .sized h hfields hsize ha

theorem means_of_byteOrder {big : Bool} (h : (letter, big) ∈ [('e', false), ('E', true)])
    (hs : pure (if rest.isEmpty then bigEndian big else unrecognised) = (.ok s : Except LayoutError _)) :
    Means (letter :: rest) s := by
  rw [pure_eq_ok_iff] at hs
  cases rest with
  | nil =>
    cases hs
    exact .byteOrder h
  | cons c rest =>
    cases hs
    refine .afterByteOrder ?_ (by simp)
    exact List.mem_map_of_mem (f := Prod.fst) h

theorem means_of_parse (h : parse text = .ok s) : Means text s := by
  unfold parse at h
  split at h
  case h_1 =>
    cases h
    exact .empty
  case h_2 letter rest =>
  obtain ⟨tag, fields, hfields⟩ := List.exists_cons_of_ne_nil (splitAtEach_ne_nil ':' rest)
  simp only [hfields, List.headD_cons, List.drop_one, List.tail_cons] at h
  split at h
  case h_1 | h_2 => exact means_of_byteOrder (by simp) h
  case h_3 | h_4 | h_5 | h_6 => exact means_of_scalar (by simp [scalars]) h
  case h_7 =>
    by_cases htag : tag = []
    · simp only [htag, List.isEmpty_nil, if_true, bind_eq_ok_iff, pure_eq_ok_iff,
        pointerSpec_eq_ok_iff] at h
      obtain ⟨a, rfl, p, hp, rfl⟩ := h
      exact .pointer hfields (.inl ⟨htag, rfl⟩) hp
    · simp only [List.isEmpty_iff, htag, if_false, bind_eq_ok_iff, pure_eq_ok_iff,
        number_eq_ok_iff, pointerSpec_eq_ok_iff] at h
      obtain ⟨a, ha, p, hp, rfl⟩ := h
      exact .pointer hfields (.inr ha) hp
  case h_8 | h_9 | h_10 => exact means_of_sized (by simp [sized]) hfields h
  case h_11 =>
    simp only [bind_eq_ok_iff, pure_eq_ok_iff, alignment_eq_ok_iff] at h
    obtain ⟨a, ha, rfl⟩ := h
    exact .aggregate hfields ha
  case h_12 =>
    split at h
    case h_1 | h_2 =>
      simp only [bind_eq_ok_iff, pure_eq_ok_iff, number_eq_ok_iff] at h
      obtain ⟨n, hn, rfl⟩ := h
      exact .functionPointer (by simp) hn
    case h_3 => cases h
  case h_13 =>
    split at h
    case h_1 => cases h
    case h_2 style more =>
      split at h
      case h_1 m hm =>
        cases h
        rw [ofKeyword?_eq_some_iff] at hm
        exact .mangling (by rw [hm, String.toList_ofList, hfields])
      case h_2 => cases h
  case h_14 =>
    split at h
    all_goals
      simp only [bind_eq_ok_iff, pure_eq_ok_iff, numberList_eq_ok_iff] at h
      obtain ⟨ns, hns, rfl⟩ := h
    · exact .nonIntegralAddrSpaces hns
    · exact .nativeIntWidths hns
  case h_15 =>
    cases h
    exact .other (by simp_all [letters])

theorem parse_of_means (h : Means text s) : parse text = .ok s := by
  cases h with
  | empty => rfl
  | other h =>
    simp only [letters, List.mem_cons, List.not_mem_nil, or_false, not_or] at h
    simp [parse, h]
  | byteOrder h =>
    simp only [List.mem_cons, Prod.mk.injEq, List.not_mem_nil, or_false] at h
    obtain ⟨rfl, rfl⟩ | ⟨rfl, rfl⟩ := h <;> rfl
  | afterByteOrder h hne =>
    simp only [List.mem_cons, List.not_mem_nil, or_false] at h
    rcases h with rfl | rfl <;> simp [parse, hne, pure, Except.pure]
  | scalar h hn =>
    simp only [scalars, List.mem_cons, Prod.mk.injEq, List.not_mem_nil, or_false] at h
    obtain ⟨rfl, rfl⟩ | ⟨rfl, rfl⟩ | ⟨rfl, rfl⟩ | ⟨rfl, rfl⟩ := h
    all_goals simp [parse, number_eq_ok_iff.mpr hn, bind, Except.bind, pure, Except.pure]
  | pointer h ha hp =>
    obtain ⟨rfl, rfl⟩ | ha := ha
    · simp [parse, h, pointerSpec_eq_ok_iff.mpr hp, bind, Except.bind, pure, Except.pure]
    · simp [parse, h, ha.ne_nil, number_eq_ok_iff.mpr ha, pointerSpec_eq_ok_iff.mpr hp, bind,
        Except.bind, pure, Except.pure]
  | sized h hrest hsize ha =>
    simp only [sized, List.mem_cons, Prod.mk.injEq, List.not_mem_nil, or_false] at h
    obtain ⟨rfl, rfl⟩ | ⟨rfl, rfl⟩ | ⟨rfl, rfl⟩ := h
    all_goals
      simp [parse, hrest, number_eq_ok_iff.mpr hsize, alignment_eq_ok_iff.mpr ha, bind, Except.bind,
        pure, Except.pure]
  | aggregate h ha =>
    simp [parse, h, alignment_eq_ok_iff.mpr ha, bind, Except.bind, pure, Except.pure]
  | functionPointer h hn =>
    simp only [List.mem_cons, Prod.mk.injEq, List.not_mem_nil, or_false] at h
    obtain ⟨rfl, rfl⟩ | ⟨rfl, rfl⟩ := h
    all_goals simp [parse, number_eq_ok_iff.mpr hn, bind, Except.bind, pure, Except.pure]
  | @mangling _ _ _ m h =>
    simp [parse, h]
  | @nativeIntWidths text ns h =>
    have hletter : ∀ list, text ≠ 'i' :: list := by
      rintro list rfl
      exact not_meansList_letter h
    simp [parse, numberList_eq_ok_iff.mpr h, bind, Except.bind, pure, Except.pure]
  | nonIntegralAddrSpaces h =>
    simp [parse, numberList_eq_ok_iff.mpr h, bind, Except.bind, pure, Except.pure]

/-- A text is read as a specification exactly when it has one of the forms and says so. -/
theorem parse_eq_ok_iff : parse text = .ok s ↔ Means text s :=
  ⟨means_of_parse, parse_of_means⟩

end Reading

theorem mapM_parse_eq_ok_iff {texts : List (List Char)} {specs : List LayoutSpec} :
    texts.mapM parse = .ok specs ↔ List.Forall₂ Means texts specs := by
  simp only [mapM_eq_ok_iff, parse_eq_ok_iff]

/-- When a step fails, the error is about the specification. -/
def Blames (spec : List Char) {α : Type} (step : Except LayoutError α) : Prop :=
  ∀ e, step = .error e → e.spec = String.ofList spec

namespace Blames

variable {α β : Type} {spec text : List Char}

theorem ok (x : α) : Blames spec (.ok x) := by
  intro e h
  cases h

theorem error {e : LayoutError} (h : e.spec = String.ofList spec) :
    Blames spec (.error e : Except LayoutError α) := by
  rintro _ ⟨⟩
  exact h

theorem bind {step : Except LayoutError α} {f : α → Except LayoutError β} (h : Blames spec step)
    (hf : ∀ x, Blames spec (f x)) : Blames spec (step >>= f) := by
  cases step with
  | error e => exact error (h e rfl)
  | ok x => exact hf x

theorem map {step : Except LayoutError α} (h : Blames spec step) (f : α → β) :
    Blames spec (do return f (← step)) :=
  h.bind fun x => ok (f x)

theorem number (spec text : List Char) : Blames spec (number spec text) := by
  unfold LayoutSpec.number
  split
  · exact ok _
  · exact error rfl

theorem required (spec : List Char) (field : Option (List Char)) :
    Blames spec (required spec field) := by
  cases field with
  | none => exact error rfl
  | some text => exact number spec text

theorem optional (spec : List Char) (absent : UInt64) (field : Option (List Char)) :
    Blames spec (optional spec absent field) := by
  cases field with
  | none => exact ok absent
  | some text => exact number spec text

theorem alignment (spec : List Char) (fields : List (List Char)) :
    Blames spec (alignment spec fields) :=
  (required _ _).bind fun abi => (optional _ abi _).map _

theorem pointerSpec (spec : List Char) (fields : List (List Char)) :
    Blames spec (pointerSpec spec fields) :=
  (required _ _).bind fun size => (required _ _).bind fun abi => (optional _ abi _).bind fun _ =>
    (optional _ size _).map _

theorem mapM {step : α → Except LayoutError β} (h : ∀ a, Blames spec (step a)) (l : List α) :
    Blames spec (l.mapM step) := by
  induction l with
  | nil => exact ok []
  | cons a l ih =>
    rw [List.mapM_cons]
    exact (h a).bind fun _ => ih.map _

theorem parse (text : List Char) : Blames text (parse text) := by
  unfold LayoutSpec.parse
  split
  case h_1 => exact ok _
  case h_2 letter rest =>
  dsimp only
  split
  case h_1 | h_2 | h_15 => exact ok _
  case h_3 | h_4 | h_5 | h_6 => exact (number _ _).map _
  case h_7 =>
    split
    · exact (ok _).bind fun _ => (pointerSpec _ _).map _
    · exact (number _ _).bind fun _ => (pointerSpec _ _).map _
  case h_8 | h_9 | h_10 => exact (number _ _).bind fun _ => (alignment _ _).map _
  case h_11 => exact (alignment _ _).map _
  case h_12 =>
    split
    · exact (number _ _).map _
    · exact (number _ _).map _
    · exact error rfl
  case h_13 =>
    split
    · exact error rfl
    · split
      · exact ok _
      · exact error rfl
  case h_14 => split <;> exact (mapM (number _) _).map _

end Blames

theorem splitAtEach_letter {letter : Char} (h : letter ∈ letters) (rest : List Char) :
    ∃ tag fields, splitAtEach ':' rest = tag :: fields ∧
      splitAtEach ':' (letter :: rest) = (letter :: tag) :: fields := by
  obtain ⟨tag, fields, hfields⟩ := List.exists_cons_of_ne_nil (splitAtEach_ne_nil ':' rest)
  have hcolon : letter ≠ ':' := by
    rintro rfl
    exact absurd h (by decide)
  refine ⟨tag, fields, hfields, ?_⟩
  rw [splitAtEach, hfields]
  exact if_neg hcolon

end LayoutSpec

namespace Layout

open LayoutSpec

variable {descriptor os arch : String} {l : Layout}

theorem parse_eq_ok_iff_means :
    parse descriptor os arch = .ok l ↔
      ∃ specs, List.Forall₂ Means (splitAtEach '-' descriptor.toList) specs ∧
        specs.foldl apply (default os arch) = l := by
  simp only [parse, bind_eq_ok_iff, pure_eq_ok_iff, mapM_parse_eq_ok_iff]

theorem parse_eq_error_iff {e : LayoutError} :
    parse descriptor os arch = .error e ↔
      (splitAtEach '-' descriptor.toList).mapM LayoutSpec.parse = .error e := by
  unfold parse
  cases (splitAtEach '-' descriptor.toList).mapM LayoutSpec.parse with
  | error e' =>
    constructor
    all_goals
      intro h
      cases h
      rfl
  | ok specs =>
    constructor
    all_goals
      intro h
      cases h

theorem exists_parse_iff :
    (∃ l, parse descriptor os arch = .ok l) ↔
      ∀ text ∈ splitAtEach '-' descriptor.toList, ∃ s, Means text s := by
  rw [← exists_forall₂_iff]
  simp only [parse_eq_ok_iff_means]
  constructor
  · rintro ⟨l, specs, hspecs, -⟩
    exact ⟨specs, hspecs⟩
  · rintro ⟨specs, hspecs⟩
    exact ⟨_, specs, hspecs, rfl⟩

theorem exists_malformed_of_parse {e : LayoutError} (h : parse descriptor os arch = .error e) :
    ∃ before text after, splitAtEach '-' descriptor.toList = before ++ text :: after ∧
      (∀ t ∈ before, ∃ s, Means t s) ∧ (¬ ∃ s, Means text s) ∧ e.spec = String.ofList text := by
  obtain ⟨before, text, after, hsplit, hbefore, htext⟩ :=
    exists_first_of_mapM_eq_error (parse_eq_error_iff.mp h)
  refine ⟨before, text, after, hsplit, fun t ht => ?_, ?_, Blames.parse text e htext⟩
  · obtain ⟨s, hs⟩ := hbefore t ht
    exact ⟨s, LayoutSpec.parse_eq_ok_iff.mp hs⟩
  · rintro ⟨s, hs⟩
    rw [LayoutSpec.parse_eq_ok_iff.mpr hs] at htext
    cases htext

/-- A descriptor is read exactly when each of its specifications has one of the forms, whatever the
target is; else the error is about the first one that has none. No cut behind a letter falls inside
a character, as these letters are one byte long and no colons. -/
theorem parse_accepts_grammar (descriptor os arch : String) :
    ((∃ l, parse descriptor os arch = .ok l) ↔
      ∀ text ∈ splitAtEach '-' descriptor.toList, ∃ s, Means text s) ∧
    (∀ e, parse descriptor os arch = .error e →
      ∃ before text after, splitAtEach '-' descriptor.toList = before ++ text :: after ∧
        (∀ t ∈ before, ∃ s, Means t s) ∧ (¬ ∃ s, Means text s) ∧ e.spec = String.ofList text) ∧
    (∀ os' arch' e, parse descriptor os arch = .error e ↔ parse descriptor os' arch' = .error e) ∧
    ∀ letter ∈ letters, letter.utf8Size = 1 ∧
      ∀ rest, ∃ tag fields, splitAtEach ':' rest = tag :: fields ∧
        splitAtEach ':' (letter :: rest) = (letter :: tag) :: fields := by
  refine ⟨exists_parse_iff, fun e => exists_malformed_of_parse, fun os' arch' e => ?_,
    fun letter hletter => ⟨?_, splitAtEach_letter hletter⟩⟩
  · rw [parse_eq_error_iff, parse_eq_error_iff]
  · have hbytes : (letters.all fun c => c.utf8Size == 1) = true := rfl
    exact eq_of_beq (List.all_eq_true.mp hbytes letter hletter)

example : parse "ü-pé-p:64-S" "linux" "x86-64" =
    .error (.invalidNumber "pé" .invalidDigit) := by rfl

end Layout

end IrGraph
