import IrGraph.Proofs.Target.Spec

/-! What a text says, laid over what holds without it. -/

namespace IrGraph

namespace Table

variable {α : Type} {rows rows' : List (UInt64 × α)} {key : UInt64}

theorem lookup_cons_eq_ite (key key' : UInt64) (x : α) (rows : List (UInt64 × α)) :
    ((key, x) :: rows).lookup key' = if key' = key then some x else rows.lookup key' := by
  rw [List.lookup_cons]
  cases h : key' == key <;> simp_all

theorem lookup_eq_none_of_lt (h : ∀ row ∈ rows, key < row.1) : rows.lookup key = none := by
  refine List.lookup_eq_none_iff.mpr fun row hrow => ?_
  simpa using UInt64.ne_of_lt (h row hrow)

theorem lookup_insertRow (key key' : UInt64) (x : α) (rows : List (UInt64 × α)) :
    (insertRow key x rows).lookup key' = if key' = key then some x else rows.lookup key' := by
  induction rows with
  | nil => exact lookup_cons_eq_ite key key' x []
  | cons row rest ih =>
    obtain ⟨k, y⟩ := row
    unfold insertRow
    split
    case isTrue => exact lookup_cons_eq_ite key key' x _
    case isFalse hge =>
      split
      case isTrue hlt =>
        have hne : k ≠ key := UInt64.ne_of_lt hlt
        rw [lookup_cons_eq_ite, lookup_cons_eq_ite, ih]
        split <;> simp_all
      case isFalse hle =>
        have heq : key = k := UInt64.le_antisymm (UInt64.not_lt.mp hle) (UInt64.not_lt.mp hge)
        rw [lookup_cons_eq_ite, lookup_cons_eq_ite, heq]
        split <;> rfl

theorem find?_insert (t : Table α) (key key' : UInt64) (x : α) :
    (t.insert key x).find? key' = if key' = key then some x else t.find? key' :=
  lookup_insertRow key key' x t.rows

theorem le_of_lookup {k : UInt64} {x y : α} (h : ((k, x) :: rows).Pairwise (·.1 < ·.1))
    (hy : ((k, x) :: rows).lookup key = some y) : k ≤ key := by
  refine UInt64.not_lt.mp fun hlt => ?_
  rw [lookup_eq_none_of_lt] at hy
  · cases hy
  · intro row hrow
    rcases List.mem_cons.mp hrow with rfl | hrow
    · exact hlt
    · exact UInt64.lt_trans hlt ((List.pairwise_cons.mp h).1 row hrow)

theorem rows_ext (h : rows.Pairwise (·.1 < ·.1)) (h' : rows'.Pairwise (·.1 < ·.1))
    (hlookup : ∀ key, rows.lookup key = rows'.lookup key) : rows = rows' := by
  induction rows generalizing rows' with
  | nil =>
    cases rows' with
    | nil => rfl
    | cons row' rest' =>
      obtain ⟨key', x'⟩ := row'
      simpa using hlookup key'
  | cons row rest ih =>
    obtain ⟨key, x⟩ := row
    obtain ⟨hfirst, hrest⟩ := List.pairwise_cons.mp h
    cases rows' with
    | nil => simpa using hlookup key
    | cons row' rest' =>
      obtain ⟨key', x'⟩ := row'
      obtain ⟨hfirst', hrest'⟩ := List.pairwise_cons.mp h'
      have hx : ((key', x') :: rest').lookup key = some x :=
        (hlookup key).symm.trans List.lookup_cons_self
      have hx' : ((key, x) :: rest).lookup key' = some x' :=
        (hlookup key').trans List.lookup_cons_self
      obtain rfl : key = key' := UInt64.le_antisymm (le_of_lookup h hx') (le_of_lookup h' hx)
      obtain rfl : x = x' := by simpa using hlookup key
      have htail : ∀ k, rest.lookup k = rest'.lookup k := by
        intro k
        by_cases hk : k = key
        · rw [hk, lookup_eq_none_of_lt hfirst, lookup_eq_none_of_lt hfirst']
        · simpa [lookup_cons_eq_ite, hk] using hlookup k
      rw [ih hrest hrest' htail]

theorem ext_find? {t t' : Table α} (h : ∀ key, t.find? key = t'.find? key) : t = t' := by
  obtain ⟨rows, hrows⟩ := t
  obtain ⟨rows', hrows'⟩ := t'
  obtain rfl : rows = rows' := rows_ext hrows hrows' h
  rfl

/-- The rows of `t`, and those of `base` whose keys `t` does not have. -/
def onto (t base : Table α) : Table α :=
  t.rows.foldl (fun t row => t.insert row.1 row.2) base

theorem find?_foldl_insert {base : Table α} (h : rows.Pairwise (·.1 < ·.1)) (key : UInt64) :
    (rows.foldl (fun t row => t.insert row.1 row.2) base).find? key =
      (rows.lookup key).or (base.find? key) := by
  induction rows generalizing base with
  | nil => rfl
  | cons row rest ih =>
    obtain ⟨k, x⟩ := row
    obtain ⟨hfirst, hrest⟩ := List.pairwise_cons.mp h
    rw [List.foldl_cons, ih hrest, find?_insert, lookup_cons_eq_ite]
    by_cases hk : key = k
    · rw [if_pos hk, if_pos hk, hk, lookup_eq_none_of_lt hfirst]
      rfl
    · rw [if_neg hk, if_neg hk]

theorem find?_onto (t base : Table α) (key : UInt64) :
    (t.onto base).find? key = (t.find? key).or (base.find? key) :=
  find?_foldl_insert t.sorted key

/-- `t` has all the keys of `base`. -/
def Covers (t base : Table α) : Prop :=
  ∀ key, (base.find? key).isSome → (t.find? key).isSome

theorem Covers.insert {t base : Table α} (h : t.Covers base) (key : UInt64) (x : α) :
    (t.insert key x).Covers base := by
  intro key' hkey
  rw [find?_insert]
  split
  · rfl
  · exact h key' hkey

theorem Covers.onto_eq {t base : Table α} (h : t.Covers base) : t.onto base = t := by
  refine ext_find? fun key => ?_
  rw [find?_onto]
  cases ht : t.find? key with
  | some x => rfl
  | none =>
    cases hbase : base.find? key with
    | none => rfl
    | some x => simpa [ht] using h key (by simp [hbase])

end Table

namespace Layout

open LayoutSpec

/-- A layout read from a text, where what the text leaves out is as in `base`. -/
def onto (l base : Layout) : Layout where
  bigEndian := l.bigEndian
  stackAlignment := if l.stackAlignment = 0 then base.stackAlignment else l.stackAlignment
  programAddrSpace := if l.programAddrSpace = 0 then base.programAddrSpace else l.programAddrSpace
  globalAddrSpace := if l.globalAddrSpace = 0 then base.globalAddrSpace else l.globalAddrSpace
  allocaAddrSpace := if l.allocaAddrSpace = 0 then base.allocaAddrSpace else l.allocaAddrSpace
  pointers := l.pointers.onto base.pointers
  integers := l.integers.onto base.integers
  vectors := l.vectors.onto base.vectors
  floats := l.floats.onto base.floats
  aggregate := l.aggregate
  functionPointer := l.functionPointer.or base.functionPointer
  mangling := l.mangling.or base.mangling
  nativeIntWidths :=
    if l.nativeIntWidths.isEmpty then base.nativeIntWidths else l.nativeIntWidths
  nonIntegralAddrSpaces :=
    if l.nonIntegralAddrSpaces.isEmpty then base.nonIntegralAddrSpaces else l.nonIntegralAddrSpaces

theorem foldl_specUnless {α : Type} {absent : Prop} [Decidable absent] (spec : α → LayoutSpec)
    (get : Layout → α) (put : Layout → α → Layout) (hput : ∀ b, put b (get b) = b)
    (happly : ∀ b x, b.apply (spec x) = put b x) (x : α) (b : Layout) :
    (specUnless absent (spec x)).foldl apply b = put b (if absent then get b else x) := by
  unfold specUnless
  split
  · exact (hput b).symm
  · exact happly b x

theorem foldl_optionSpecs {α : Type} (spec : α → LayoutSpec) (get : Layout → Option α)
    (put : Layout → Option α → Layout) (hput : ∀ b, put b (get b) = b)
    (happly : ∀ b x, b.apply (spec x) = put b (some x)) (o : Option α) (b : Layout) :
    (o.toList.map spec).foldl apply b = put b (o.or (get b)) := by
  cases o with
  | none => exact (hput b).symm
  | some x => exact happly b x

theorem foldl_tableSpecs {α : Type} (spec : UInt64 → α → LayoutSpec) (get : Layout → Table α)
    (put : Layout → Table α → Layout) (hput : ∀ b, put b (get b) = b)
    (happly : ∀ b t key x, (put b t).apply (spec key x) = put b (t.insert key x)) (t : Table α)
    (b : Layout) : (tableSpecs spec t).foldl apply b = put b (t.onto (get b)) := by
  have hrows : ∀ base, (t.rows.map fun row => spec row.1 row.2).foldl apply (put b base) =
      put b (t.rows.foldl (fun t row => t.insert row.1 row.2) base) := by
    generalize t.rows = rows
    induction rows with
    | nil => exact fun base => rfl
    | cons row rows ih =>
      intro base
      rw [List.map_cons, List.foldl_cons, List.foldl_cons, happly, ih]
  have hb := hrows (get b)
  rwa [hput] at hb

theorem foldl_specs (l base : Layout) :
    l.specs.foldl apply { base with bigEndian := l.bigEndian } = l.onto base := by
  simp only [specs, List.foldl_append, List.foldl_cons, List.foldl_nil,
    foldl_specUnless .stackAlignment (·.stackAlignment) (fun b n => { b with stackAlignment := n })
      (fun _ => rfl) (fun _ _ => rfl),
    foldl_specUnless .programAddrSpace (·.programAddrSpace)
      (fun b n => { b with programAddrSpace := n }) (fun _ => rfl) (fun _ _ => rfl),
    foldl_specUnless .globalAddrSpace (·.globalAddrSpace)
      (fun b n => { b with globalAddrSpace := n }) (fun _ => rfl) (fun _ _ => rfl),
    foldl_specUnless .allocaAddrSpace (·.allocaAddrSpace)
      (fun b n => { b with allocaAddrSpace := n }) (fun _ => rfl) (fun _ _ => rfl),
    foldl_tableSpecs .pointer (·.pointers) (fun b t => { b with pointers := t }) (fun _ => rfl)
      (fun _ _ _ _ => rfl),
    foldl_tableSpecs .integer (·.integers) (fun b t => { b with integers := t }) (fun _ => rfl)
      (fun _ _ _ _ => rfl),
    foldl_tableSpecs .vector (·.vectors) (fun b t => { b with vectors := t }) (fun _ => rfl)
      (fun _ _ _ _ => rfl),
    foldl_tableSpecs .float (·.floats) (fun b t => { b with floats := t }) (fun _ => rfl)
      (fun _ _ _ _ => rfl),
    foldl_optionSpecs .functionPointer (·.functionPointer)
      (fun b o => { b with functionPointer := o }) (fun _ => rfl) (fun _ _ => rfl),
    foldl_optionSpecs .mangling (·.mangling) (fun b o => { b with mangling := o }) (fun _ => rfl)
      (fun _ _ => rfl),
    foldl_specUnless .nativeIntWidths (·.nativeIntWidths)
      (fun b ns => { b with nativeIntWidths := ns }) (fun _ => rfl) (fun _ _ => rfl),
    foldl_specUnless .nonIntegralAddrSpaces (·.nonIntegralAddrSpaces)
      (fun b ns => { b with nonIntegralAddrSpaces := ns }) (fun _ => rfl) (fun _ _ => rfl)]
  rfl

theorem parse_text (l : Layout) (os arch : String) :
    parse l.text os arch = .ok (l.onto (default os arch)) := by
  rw [parse_text_eq_foldl, foldl_specs]

theorem scalar_or_zero (n : UInt64) : (if n = 0 then 0 else n) = n := by
  split <;> simp_all

theorem list_or_nil (ns : List UInt64) : (if ns.isEmpty then [] else ns) = ns := by
  cases ns <;> rfl

/-- The defaults give neither a scalar nor a list of address spaces, so what a text leaves out of
those stays as it is. -/
theorem onto_default (l : Layout) (os arch : String) :
    l.onto (default os arch) =
      { l with
        pointers := l.pointers.onto (default os arch).pointers
        integers := l.integers.onto (default os arch).integers
        vectors := l.vectors.onto (default os arch).vectors
        floats := l.floats.onto (default os arch).floats
        mangling := l.mangling.or (defaultMangling os)
        nativeIntWidths :=
          if l.nativeIntWidths.isEmpty then defaultIntWidths arch else l.nativeIntWidths } := by
  simp only [onto, default, scalar_or_zero, list_or_nil, Option.or_none]

/-- The text of any layout is read, whatever its numbers and tables are. The layout that comes
back is the same one, save that the target fills the tables where they have no row, and gives the
mangling and the widths of native integers when there are none. -/
theorem text_read_over_defaults (l : Layout) (os arch : String) :
    ∃ pointers integers vectors floats,
      parse l.text os arch =
        .ok { l with
          pointers, integers, vectors, floats
          mangling := l.mangling.or (defaultMangling os)
          nativeIntWidths :=
            if l.nativeIntWidths = [] then defaultIntWidths arch else l.nativeIntWidths } ∧
      (∀ key, pointers.find? key =
        (l.pointers.find? key).or ((default os arch).pointers.find? key)) ∧
      (∀ key, integers.find? key =
        (l.integers.find? key).or ((default os arch).integers.find? key)) ∧
      (∀ key, vectors.find? key =
        (l.vectors.find? key).or ((default os arch).vectors.find? key)) ∧
      (∀ key, floats.find? key =
        (l.floats.find? key).or ((default os arch).floats.find? key)) := by
  refine ⟨l.pointers.onto (default os arch).pointers, l.integers.onto (default os arch).integers,
    l.vectors.onto (default os arch).vectors, l.floats.onto (default os arch).floats,
    ?_, ?_, ?_, ?_, ?_⟩
  · have hread : parse l.text os arch = .ok (l.onto (default os arch)) := parse_text l os arch
    rw [hread, onto_default]
    simp only [List.isEmpty_iff]
  · exact Table.find?_onto l.pointers _
  · exact Table.find?_onto l.integers _
  · exact Table.find?_onto l.vectors _
  · exact Table.find?_onto l.floats _

end Layout

end IrGraph
