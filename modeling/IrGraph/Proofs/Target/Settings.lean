import IrGraph.Proofs.Target.Grammar
import IrGraph.Proofs.Target.Overlay

/-! What a layout says once a descriptor is read: about each topic what the last specification about
it says, else what holds without a descriptor. -/

namespace IrGraph

/-- What a specification can be about: a scalar, or the row of a table under a key. -/
inductive LayoutTopic
  | byteOrder
  | stackAlignment
  | programAddrSpace
  | globalAddrSpace
  | allocaAddrSpace
  | pointer (addrSpace : UInt64)
  | integer (size : UInt64)
  | vector (size : UInt64)
  | float (size : UInt64)
  | aggregate
  | functionPointer
  | mangling
  | nativeIntWidths
  | nonIntegralAddrSpaces
  deriving DecidableEq

namespace LayoutSpec

def topic? : LayoutSpec → Option LayoutTopic
  | bigEndian _ => some .byteOrder
  | stackAlignment _ => some .stackAlignment
  | programAddrSpace _ => some .programAddrSpace
  | globalAddrSpace _ => some .globalAddrSpace
  | allocaAddrSpace _ => some .allocaAddrSpace
  | pointer addrSpace _ => some (.pointer addrSpace)
  | integer size _ => some (.integer size)
  | vector size _ => some (.vector size)
  | float size _ => some (.float size)
  | aggregate _ => some .aggregate
  | functionPointer _ => some .functionPointer
  | mangling _ => some .mangling
  | nativeIntWidths _ => some .nativeIntWidths
  | nonIntegralAddrSpaces _ => some .nonIntegralAddrSpaces
  | unrecognised => none

/-- The specifications about a topic, in their order. -/
def about (t : LayoutTopic) (specs : List LayoutSpec) : List LayoutSpec :=
  specs.filter (·.topic? = some t)

end LayoutSpec

namespace Layout

open LayoutSpec

/-- What a layout says about a topic; nothing where it has no row and no setting. -/
def answer (l : Layout) : LayoutTopic → Option LayoutSpec
  | .byteOrder => some (.bigEndian l.bigEndian)
  | .stackAlignment => some (.stackAlignment l.stackAlignment)
  | .programAddrSpace => some (.programAddrSpace l.programAddrSpace)
  | .globalAddrSpace => some (.globalAddrSpace l.globalAddrSpace)
  | .allocaAddrSpace => some (.allocaAddrSpace l.allocaAddrSpace)
  | .pointer addrSpace => (l.pointers.find? addrSpace).map (.pointer addrSpace)
  | .integer size => (l.integers.find? size).map (.integer size)
  | .vector size => (l.vectors.find? size).map (.vector size)
  | .float size => (l.floats.find? size).map (.float size)
  | .aggregate => some (.aggregate l.aggregate)
  | .functionPointer => l.functionPointer.map .functionPointer
  | .mangling => l.mangling.map .mangling
  | .nativeIntWidths => some (.nativeIntWidths l.nativeIntWidths)
  | .nonIntegralAddrSpaces => some (.nonIntegralAddrSpaces l.nonIntegralAddrSpaces)

variable {l l' : Layout}

theorem map_find?_insert {α : Type} (spec : UInt64 → α → LayoutSpec) (t : Table α)
    (key key' : UInt64) (x : α) :
    ((t.insert key x).find? key').map (spec key') =
      if key = key' then some (spec key x) else (t.find? key').map (spec key') := by
  rw [Table.find?_insert]
  by_cases h : key = key'
  · subst h
    rw [if_pos rfl, if_pos rfl]
    rfl
  · rw [if_neg (Ne.symm h), if_neg h]

theorem answer_apply (l : Layout) (s : LayoutSpec) (t : LayoutTopic) :
    (l.apply s).answer t = if s.topic? = some t then some s else l.answer t := by
  cases s with
  | pointer addrSpace p =>
    cases t with
    | pointer key => simp [apply, answer, topic?, map_find?_insert]
    | _ => rfl
  | integer size a =>
    cases t with
    | integer key => simp [apply, answer, topic?, map_find?_insert]
    | _ => rfl
  | vector size a =>
    cases t with
    | vector key => simp [apply, answer, topic?, map_find?_insert]
    | _ => rfl
  | float size a =>
    cases t with
    | float key => simp [apply, answer, topic?, map_find?_insert]
    | _ => rfl
  | _ => cases t <;> rfl

/-- Each specification takes the place of what was said about its topic. -/
theorem answer_foldl (specs : List LayoutSpec) (l : Layout) (t : LayoutTopic) :
    (specs.foldl apply l).answer t = ((about t specs).getLast?).or (l.answer t) := by
  induction specs generalizing l with
  | nil => rfl
  | cons s specs ih =>
    rw [List.foldl_cons, ih, answer_apply]
    by_cases hs : s.topic? = some t
    · have habout : about t (s :: specs) = s :: about t specs :=
        List.filter_cons_of_pos (by simpa using hs)
      rw [if_pos hs, habout, List.getLast?_cons]
      cases (about t specs).getLast? <;> rfl
    · have habout : about t (s :: specs) = about t specs :=
        List.filter_cons_of_neg (by simpa using hs)
      rw [if_neg hs, habout]

theorem table_ext {α : Type} {spec : UInt64 → α → LayoutSpec} {t t' : Table α}
    (hspec : ∀ key x y, spec key x = spec key y → x = y)
    (h : ∀ key, (t.find? key).map (spec key) = (t'.find? key).map (spec key)) : t = t' := by
  refine Table.ext_find? fun key => ?_
  exact Option.map_injective (fun x y => hspec key x y) (h key)

/-- A layout is all that it says. -/
theorem eq_of_answer (h : ∀ t, l.answer t = l'.answer t) : l = l' := by
  have hpointers : l.pointers = l'.pointers := table_ext (by simp) fun key => h (.pointer key)
  have hintegers : l.integers = l'.integers := table_ext (by simp) fun key => h (.integer key)
  have hvectors : l.vectors = l'.vectors := table_ext (by simp) fun key => h (.vector key)
  have hfloats : l.floats = l'.floats := table_ext (by simp) fun key => h (.float key)
  have hfunction : l.functionPointer = l'.functionPointer :=
    Option.map_injective (fun x y => by simp) (h .functionPointer)
  have hmangling : l.mangling = l'.mangling :=
    Option.map_injective (fun x y => by simp) (h .mangling)
  have hendian := h .byteOrder
  have hstack := h .stackAlignment
  have hprogram := h .programAddrSpace
  have hglobal := h .globalAddrSpace
  have halloca := h .allocaAddrSpace
  have haggregate := h .aggregate
  have hnative := h .nativeIntWidths
  have hnonIntegral := h .nonIntegralAddrSpaces
  cases l
  cases l'
  simp_all [answer]

/-- What the specifications make of a layout depends, for each topic, on those about it alone. -/
theorem foldl_eq_of_about {specs specs' : List LayoutSpec}
    (h : ∀ t, about t specs' = about t specs) (l : Layout) :
    specs'.foldl apply l = specs.foldl apply l :=
  eq_of_answer fun t => by rw [answer_foldl, answer_foldl, h t]

/-- A layout that is read answers each topic with the last specification about it, and with the
default of the target if there is none. So specifications that are about nothing have no effect,
and specifications about different topics can change places. -/
theorem parse_answers_last {descriptor os arch : String} (h : parse descriptor os arch = .ok l) :
    ∃ specs, List.Forall₂ Means (splitAtEach '-' descriptor.toList) specs ∧
      (∀ t, l.answer t = ((about t specs).getLast?).or ((default os arch).answer t)) ∧
      ∀ descriptor' specs', List.Forall₂ Means (splitAtEach '-' descriptor'.toList) specs' →
        (∀ t, about t specs' = about t specs) → parse descriptor' os arch = .ok l := by
  obtain ⟨specs, hspecs, rfl⟩ := parse_eq_ok_iff_means.mp h
  refine ⟨specs, hspecs, fun t => answer_foldl specs _ t, ?_⟩
  intro descriptor' specs' hspecs' habout
  exact parse_eq_ok_iff_means.mpr ⟨specs', hspecs', foldl_eq_of_about habout _⟩

/-- Of two rows for integers of 64 bits the later one counts, the first pointer row has no preferred
alignment and no index, and `e5` is about nothing. -/
theorem reordered_parse_answers_last :
    ∃ l, parse "e-i64:64-p:32:16-e5-i64:32:64" "linux" "x86-64" = .ok l ∧
      l.answer (.integer 64) = some (.integer 64 ⟨32, 64⟩) ∧
      l.answer (.pointer 0) = some (.pointer 0 ⟨32, 16, 16, 32⟩) ∧
      l.answer (.float 16) = some (.float 16 ⟨16, 16⟩) ∧
      parse "p:32:16--i64:64-i64:32:64-e" "linux" "x86-64" = .ok l := by
  obtain ⟨l, hl⟩ : ∃ l, parse "e-i64:64-p:32:16-e5-i64:32:64" "linux" "x86-64" = .ok l := ⟨_, rfl⟩
  obtain ⟨specs, hspecs, hanswer, hagain⟩ := parse_answers_last hl
  have hread : (splitAtEach '-' "e-i64:64-p:32:16-e5-i64:32:64".toList).mapM LayoutSpec.parse =
      .ok [.bigEndian false, .integer 64 ⟨64, 64⟩, .pointer 0 ⟨32, 16, 16, 32⟩, .unrecognised,
        .integer 64 ⟨32, 64⟩] := by rfl
  have hread' : (splitAtEach '-' "p:32:16--i64:64-i64:32:64-e".toList).mapM LayoutSpec.parse =
      .ok [.pointer 0 ⟨32, 16, 16, 32⟩, .unrecognised, .integer 64 ⟨64, 64⟩, .integer 64 ⟨32, 64⟩,
        .bigEndian false] := by rfl
  obtain rfl := Except.ok.inj ((mapM_parse_eq_ok_iff.mpr hspecs).symm.trans hread)
  refine ⟨l, hl, hanswer _, hanswer _, hanswer _, ?_⟩
  refine hagain _ _ (mapM_parse_eq_ok_iff.mp hread') fun t => ?_
  cases t <;> simp [about, topic?, List.filter_cons]

end Layout

end IrGraph
