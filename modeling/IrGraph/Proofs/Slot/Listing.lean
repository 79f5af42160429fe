import Mathlib.Data.List.Nodup
import IrGraph.Instruction.Slot

/-! Operands that are listed by position, in one list or in a list of bundles: which slots there
are, what is in them, and how all of them change at once. The slots of a list of at most 2³²
operands are all different; what stands further back in a list has no slot of its own. -/

namespace IrGraph

def bundleSizes (bundles : List Bundle) : List Nat :=
  bundles.length :: bundles.map (·.inputs.length)

/-- Lists of these sizes have a slot for each of their operands. -/
def Addressable (sizes : List Nat) : Prop :=
  ∀ n ∈ sizes, n ≤ UInt32.size

instance (sizes : List Nat) : Decidable (Addressable sizes) :=
  inferInstanceAs (Decidable (∀ n ∈ sizes, n ≤ UInt32.size))

@[simp]
theorem addressable_nil : Addressable [] := by
  simp [Addressable]

@[simp]
theorem addressable_cons_iff {n : Nat} {sizes : List Nat} :
    Addressable (n :: sizes) ↔ n ≤ UInt32.size ∧ Addressable sizes := by
  simp [Addressable]

section Word

theorem toNat_toUInt32 {i : Nat} (hi : i < UInt32.size) : i.toUInt32.toNat = i :=
  UInt32.toNat_ofNat_of_lt' hi

@[simp, grind =]
theorem toUInt32_toNat (i : UInt32) : i.toNat.toUInt32 = i :=
  UInt32.ofNat_toNat

variable {α : Type} {l : List α} {i : Nat} {a : α}

theorem lt_size_of_getElem? (hl : l.length ≤ UInt32.size) (h : l[i]? = some a) :
    i < UInt32.size := by
  obtain ⟨hlt, -⟩ := List.getElem?_eq_some_iff.mp h
  exact Nat.lt_of_lt_of_le hlt hl

@[grind →]
theorem getElem?_toUInt32 (hl : l.length ≤ UInt32.size) (h : l[i]? = some a) :
    l[i.toUInt32.toNat]? = some a := by
  rw [toNat_toUInt32 (lt_size_of_getElem? hl h), h]

end Word

section Listed

variable {σ α : Type} {l : List α} {s : σ} {v : Value} {bundles : List Bundle}

theorem mem_mapIdx_slot {slot : Nat → σ} {value : α → Value} :
    (s, v) ∈ l.mapIdx (fun i a => (slot i, value a)) ↔
      ∃ i, s = slot i ∧ ∃ a, l[i]? = some a ∧ value a = v := by
  simp only [List.mem_mapIdx, Prod.mk.injEq, List.getElem?_eq_some_iff]
  constructor
  · rintro ⟨i, hi, hs, hv⟩
    exact ⟨i, hs.symm, l[i], ⟨hi, rfl⟩, hv⟩
  · rintro ⟨i, hs, a, ⟨hi, rfl⟩, hv⟩
    exact ⟨i, hi, hs.symm, hv⟩

theorem mem_flatten_mapIdx {operands : Nat → α → List (σ × Value)} :
    (s, v) ∈ (l.mapIdx operands).flatten ↔ ∃ i a, l[i]? = some a ∧ (s, v) ∈ operands i a := by
  simp only [List.mem_flatten, List.mem_mapIdx, List.getElem?_eq_some_iff]
  constructor
  · rintro ⟨_, ⟨i, hi, rfl⟩, hs⟩
    exact ⟨i, l[i], ⟨hi, rfl⟩, hs⟩
  · rintro ⟨i, a, ⟨hi, rfl⟩, hs⟩
    exact ⟨_, ⟨i, hi, rfl⟩, hs⟩

theorem mem_bundleOperands {slot : UInt32 → UInt32 → σ} :
    (s, v) ∈ bundleOperands slot bundles ↔ ∃ b i : Nat, s = slot b.toUInt32 i.toUInt32 ∧
      ∃ bundle : Bundle, bundles[b]? = some bundle ∧ bundle.inputs[i]? = some v := by
  simp only [bundleOperands, mem_flatten_mapIdx, mem_mapIdx_slot]
  constructor
  · rintro ⟨b, bundle, hb, i, hs, a, ha, rfl⟩
    exact ⟨b, i, hs, bundle, hb, ha⟩
  · rintro ⟨b, i, hs, bundle, hb, hv⟩
    exact ⟨b, bundle, hb, i, hs, v, hv, rfl⟩

@[grind =]
theorem readBundle_eq_some_iff {b i : UInt32} :
    readBundle bundles b i = some v ↔
      ∃ bundle, bundles[b.toNat]? = some bundle ∧ bundle.inputs[i.toNat]? = some v := by
  simp [readBundle, Option.bind_eq_some_iff]

theorem addressable_bundleSizes_iff : Addressable (bundleSizes bundles) ↔
    bundles.length ≤ UInt32.size ∧ ∀ bundle ∈ bundles, bundle.inputs.length ≤ UInt32.size := by
  simp [Addressable, bundleSizes]

theorem map_fst_mapIdx_slot {slot : Nat → σ} {value : α → Value} :
    (l.mapIdx fun i a => (slot i, value a)).map Prod.fst = (List.range l.length).map slot := by
  apply List.ext_getElem <;> simp

theorem map_snd_mapIdx_slot {slot : Nat → σ} {value : α → Value} :
    (l.mapIdx fun i a => (slot i, value a)).map Prod.snd = l.map value := by
  apply List.ext_getElem <;> simp

theorem nodup_mapIdx_slot {slot : UInt32 → σ} {value : α → Value} (hl : l.length ≤ UInt32.size)
    (hs : ∀ i j, slot i = slot j → i = j) :
    ((l.mapIdx fun i a => (slot i.toUInt32, value a)).map Prod.fst).Nodup := by
  rw [map_fst_mapIdx_slot]
  refine List.nodup_range.map_on fun i hi j hj hij => ?_
  rw [List.mem_range] at hi hj
  rw [← toNat_toUInt32 (Nat.lt_of_lt_of_le hi hl), hs _ _ hij,
    toNat_toUInt32 (Nat.lt_of_lt_of_le hj hl)]

/-- Slots that name their position in the outer list differ when the lists of each position have
no slot twice. -/
theorem nodup_flatten_mapIdx {operands : Nat → α → List (σ × Value)} (position : σ → Nat)
    (hl : l.length ≤ UInt32.size) (hnd : ∀ i, ∀ a ∈ l, ((operands i a).map Prod.fst).Nodup)
    (hpos : ∀ i a, ∀ p ∈ operands i a, position p.1 = i.toUInt32.toNat) :
    ((l.mapIdx operands).flatten.map Prod.fst).Nodup := by
  rw [List.map_flatten, List.nodup_flatten]
  constructor
  · intro slots hslots
    simp only [List.mem_map, List.mem_mapIdx] at hslots
    obtain ⟨_, ⟨i, hi, rfl⟩, rfl⟩ := hslots
    exact hnd i l[i] (List.getElem_mem hi)
  · rw [List.pairwise_map, List.pairwise_iff_getElem]
    intro i j hi hj hij s hsi hsj
    simp only [List.length_mapIdx] at hi hj
    simp only [List.getElem_mapIdx, List.mem_map] at hsi hsj
    obtain ⟨p, hp, rfl⟩ := hsi
    obtain ⟨q, hq, hpq⟩ := hsj
    have hposi : position p.1 = i := by
      rw [hpos i _ p hp, toNat_toUInt32 (Nat.lt_of_lt_of_le hi hl)]
    have hposj : position q.1 = j := by
      rw [hpos j _ q hq, toNat_toUInt32 (Nat.lt_of_lt_of_le hj hl)]
    rw [hpq] at hposj
    omega

theorem nodup_bundleOperands {slot : UInt32 → UInt32 → σ} (position : σ → Nat)
    (hpos : ∀ b i, position (slot b i) = b.toNat) (hs : ∀ b i j, slot b i = slot b j → i = j)
    (h : Addressable (bundleSizes bundles)) :
    ((bundleOperands slot bundles).map Prod.fst).Nodup := by
  obtain ⟨hlen, hinputs⟩ := addressable_bundleSizes_iff.mp h
  refine nodup_flatten_mapIdx position hlen
    (fun b bundle hb => nodup_mapIdx_slot (hinputs bundle hb) (hs _)) ?_
  rintro b bundle ⟨s, v⟩ hp
  obtain ⟨i, rfl, -⟩ := mem_mapIdx_slot.mp hp
  exact hpos _ _

end Listed

section Written

theorem writeAt_eq_some_iff {α : Type} {l l' : List α} {i : UInt32} {v : α} :
    writeAt l i v = some l' ↔ i.toNat < l.length ∧ l' = l.set i.toNat v := by
  unfold writeAt
  split
  case isTrue hi => simp [hi, eq_comm]
  case isFalse hi => simp [hi]

@[simp]
theorem isSome_writeAt {α : Type} {l : List α} {i : UInt32} {v : α} :
    (writeAt l i v).isSome = l[i.toNat]?.isSome := by
  unfold writeAt
  split
  case isTrue hi => simp [hi]
  case isFalse hi => simp [hi]

@[simp]
theorem isSome_writeBundle {bundles : List Bundle} {b i : UInt32} {v : Value} :
    (writeBundle bundles b i v).isSome = (readBundle bundles b i).isSome := by
  cases hb : bundles[b.toNat]? with
  | none => simp [writeBundle, readBundle, hb]
  | some bundle =>
    simp only [writeBundle, readBundle, hb, Option.bind_eq_bind, Option.bind_some, Option.pure_def]
    rw [← isSome_writeAt (v := v)]
    cases writeAt bundle.inputs i v <;> rfl

end Written

section Mapped

variable {σ α : Type} {v : Value}

/-- What a slot holds after `v` has been put into `s`. -/
def replaceAt [DecidableEq σ] (s : σ) (v : Value) (t : σ) : Value → Value := fun a =>
  if t = s then v else a

/-- Changes what a list has at the positions that are words. -/
def mapAt (f : UInt32 → α → α) (l : List α) : List α :=
  l.mapIdx fun i a => if i < UInt32.size then f i.toUInt32 a else a

def mapBundles (slot : UInt32 → UInt32 → σ) (f : σ → Value → Value) (bundles : List Bundle) :
    List Bundle :=
  mapAt (fun b bundle => { bundle with inputs := mapAt (fun i => f (slot b i)) bundle.inputs })
    bundles

variable {l : List α} {f g : UInt32 → α → α} {i : UInt32}

theorem map_eq_self {o : Option α} {f : α → α} (h : ∀ a, o = some a → f a = a) : o.map f = o := by
  cases o with
  | none => rfl
  | some a => rw [Option.map_some, h a rfl]

@[simp]
theorem getElem?_mapAt : (mapAt f l)[i.toNat]? = l[i.toNat]?.map (f i) := by
  have hi : i.toNat < UInt32.size := i.toNat_lt
  simp [mapAt, List.getElem?_mapIdx, hi]

theorem getElem?_mapAt_of_le {i : Nat} (hi : UInt32.size ≤ i) : (mapAt f l)[i]? = l[i]? := by
  simp [mapAt, List.getElem?_mapIdx, Nat.not_lt.mpr hi]

@[simp]
theorem length_mapAt : (mapAt f l).length = l.length :=
  List.length_mapIdx

/-- Two lists are equal when they agree at the words and behind them. -/
theorem ext_toNat {l l' : List α} (h : ∀ i : UInt32, l[i.toNat]? = l'[i.toNat]?)
    (hrest : ∀ i, UInt32.size ≤ i → l[i]? = l'[i]?) : l = l' := by
  apply List.ext_getElem?
  intro i
  by_cases hi : i < UInt32.size
  · rw [← toNat_toUInt32 hi, h]
  · exact hrest i (Nat.not_lt.mp hi)

theorem mapAt_mapAt : mapAt g (mapAt f l) = mapAt (fun i a => g i (f i a)) l := by
  refine ext_toNat (fun i => ?_) fun i hi => ?_
  · simp [Function.comp_def]
  · simp only [getElem?_mapAt_of_le hi]

theorem mapAt_eq_self (h : ∀ i : UInt32, ∀ a, l[i.toNat]? = some a → f i a = a) :
    mapAt f l = l := by
  refine ext_toNat (fun i => ?_) fun i hi => getElem?_mapAt_of_le hi
  rw [getElem?_mapAt]
  exact map_eq_self (h i)

theorem mapAt_eq_set {a b : α} (hi : l[i.toNat]? = some a) (ha : f i a = b)
    (h : ∀ j c, j ≠ i → f j c = c) : mapAt f l = l.set i.toNat b := by
  obtain ⟨hlt, -⟩ := List.getElem?_eq_some_iff.mp hi
  refine ext_toNat (fun j => ?_) fun j hj => ?_
  · rw [getElem?_mapAt, List.getElem?_set]
    by_cases hj : j = i
    · subst hj
      rw [hi, Option.map_some, ha, if_pos rfl, if_pos hlt]
    · rw [if_neg fun hij => hj (UInt32.toNat_inj.mp hij.symm)]
      exact map_eq_self fun c _ => h j c hj
  · have hne : i.toNat ≠ j := Nat.ne_of_lt (Nat.lt_of_lt_of_le i.toNat_lt hj)
    rw [getElem?_mapAt_of_le hj, List.getElem?_set_ne hne]

theorem mapAt_replaceAt [DecidableEq σ] (slot : UInt32 → σ) {l l' : List Value}
    (hs : ∀ j, slot j = slot i ↔ j = i) (h : writeAt l i v = some l') :
    mapAt (fun j => replaceAt (slot i) v (slot j)) l = l' := by
  obtain ⟨hlt, rfl⟩ := writeAt_eq_some_iff.mp h
  refine mapAt_eq_set (List.getElem?_eq_getElem hlt) ?_ fun j c hj => ?_
  · simp [replaceAt]
  · simp [replaceAt, hs, hj]

theorem mapAt_eq_mapIdx (hl : l.length ≤ UInt32.size) :
    mapAt f l = l.mapIdx fun i => f i.toUInt32 := by
  apply List.ext_getElem
  · simp
  · intro i hi _
    have hlt : i < UInt32.size := Nat.lt_of_lt_of_le (length_mapAt ▸ hi) hl
    simp [mapAt, hlt]

theorem map_mapIdx {β γ : Type} {f : Nat → α → β} {g : β → γ} :
    (l.mapIdx f).map g = l.mapIdx fun i a => g (f i a) := by
  apply List.ext_getElem <;> simp

theorem mapIdx_slot_mapAt {slot : UInt32 → σ} {f : σ → Value → Value} {l : List Value}
    (hl : l.length ≤ UInt32.size) :
    (mapAt (fun i => f (slot i)) l).mapIdx (fun i v => (slot i.toUInt32, v)) =
      (l.mapIdx fun i v => (slot i.toUInt32, v)).map fun p => (p.1, f p.1 p.2) := by
  simp [mapAt_eq_mapIdx hl, map_mapIdx, Function.comp_def]

theorem mapBundles_mapBundles {slot : UInt32 → UInt32 → σ} {f g : σ → Value → Value}
    {bundles : List Bundle} : mapBundles slot g (mapBundles slot f bundles) =
      mapBundles slot (fun s a => g s (f s a)) bundles := by
  simp only [mapBundles, mapAt_mapAt]

theorem bundleSizes_mapBundles {slot : UInt32 → UInt32 → σ} {f : σ → Value → Value}
    {bundles : List Bundle} : bundleSizes (mapBundles slot f bundles) = bundleSizes bundles := by
  rw [bundleSizes, mapBundles, length_mapAt, bundleSizes]
  congr 1
  apply List.ext_getElem
  · simp
  · intro b _ _
    simp only [List.getElem_map, mapAt, List.getElem_mapIdx]
    split <;> simp

theorem mapBundles_eq_self {slot : UInt32 → UInt32 → σ} {f : σ → Value → Value}
    {bundles : List Bundle} (h : ∀ b i a, readBundle bundles b i = some a → f (slot b i) a = a) :
    mapBundles slot f bundles = bundles := by
  refine mapAt_eq_self fun b bundle hb => ?_
  rw [mapAt_eq_self fun i a hi => h b i a (readBundle_eq_some_iff.mpr ⟨bundle, hb, hi⟩)]

theorem readBundle_mapBundles {slot : UInt32 → UInt32 → σ} {f : σ → Value → Value}
    {bundles : List Bundle} {b i : UInt32} :
    readBundle (mapBundles slot f bundles) b i = (readBundle bundles b i).map (f (slot b i)) := by
  cases hb : bundles[b.toNat]? with
  | none => simp [readBundle, mapBundles, hb]
  | some bundle => simp [readBundle, mapBundles, hb]

theorem mapBundles_replaceAt [DecidableEq σ] (slot : UInt32 → UInt32 → σ)
    {bundles bundles' : List Bundle} {b i : UInt32}
    (hs : ∀ b' i', slot b' i' = slot b i ↔ b' = b ∧ i' = i)
    (h : writeBundle bundles b i v = some bundles') :
    mapBundles slot (replaceAt (slot b i) v) bundles = bundles' := by
  simp only [writeBundle, Option.bind_eq_bind, Option.bind_eq_some_iff] at h
  obtain ⟨bundle, hb, inputs, hinputs, h⟩ := h
  obtain rfl := Option.some.inj h
  refine mapAt_eq_set hb ?_ ?_
  · rw [mapAt_replaceAt (slot b) (by simp [hs]) hinputs]
  · intro b' bundle' hb'
    rw [mapAt_eq_self fun i' a _ => by simp [replaceAt, hs, hb']]

/-- Slots that are listed by position only are the same after a change of the list. -/
theorem slots_mapIdx_mapAt {operands : Nat → α → List (σ × Value)}
    (h : ∀ i a b, (operands i (f b a)).map Prod.fst = (operands i a).map Prod.fst) :
    ((mapAt f l).mapIdx operands).flatten.map Prod.fst =
      (l.mapIdx operands).flatten.map Prod.fst := by
  rw [List.map_flatten, List.map_flatten]
  congr 1
  refine List.ext_getElem (by simp) fun i hi _ => ?_
  simp only [List.getElem_map, List.getElem_mapIdx, mapAt]
  split
  · exact h i _ _
  · rfl

theorem slots_mapBundles {slot : UInt32 → UInt32 → σ} {f : σ → Value → Value}
    {bundles : List Bundle} : (bundleOperands slot (mapBundles slot f bundles)).map Prod.fst =
      (bundleOperands slot bundles).map Prod.fst := by
  refine slots_mapIdx_mapAt fun b bundle c => ?_
  simp only [map_fst_mapIdx_slot, length_mapAt]

theorem bundleOperands_mapBundles {slot : UInt32 → UInt32 → σ} {f : σ → Value → Value}
    {bundles : List Bundle} (h : Addressable (bundleSizes bundles)) :
    bundleOperands slot (mapBundles slot f bundles) =
      (bundleOperands slot bundles).map fun p => (p.1, f p.1 p.2) := by
  obtain ⟨hlen, hinputs⟩ := addressable_bundleSizes_iff.mp h
  rw [bundleOperands, bundleOperands, List.map_flatten, mapBundles, mapAt_eq_mapIdx hlen]
  congr 1
  refine List.ext_getElem (by simp) fun b hb _ => ?_
  have hb' : b < bundles.length := by simpa using hb
  simp only [List.getElem_mapIdx, List.getElem_map]
  exact mapIdx_slot_mapAt (hinputs _ (List.getElem_mem hb'))

end Mapped

/-- Listing the operands, reading a slot and writing a slot agree on what is in which slot. Writing
what is in a slot already changes nothing. -/
structure SlotsAgree {σ κ : Type} (operands : List (σ × Value)) (read : σ → Option Value)
    (write : σ → Value → Option κ) (k : κ) : Prop where
  nodup : (operands.map Prod.fst).Nodup
  mem_iff_read : ∀ s v, (s, v) ∈ operands ↔ read s = some v
  mem_iff_write : ∀ s v, (s, v) ∈ operands ↔ write s v = some k
  isSome_write : ∀ s v, (write s v).isSome ↔ s ∈ operands.map Prod.fst

theorem SlotsAgree.of_map {σ κ : Type} [DecidableEq σ] {operands : κ → List (σ × Value)}
    {read : σ → Option Value} {write : σ → Value → Option κ}
    (map : (σ → Value → Value) → κ → κ) {k : κ}
    (hnodup : ((operands k).map Prod.fst).Nodup)
    (hread : ∀ s v, (s, v) ∈ operands k ↔ read s = some v)
    (hsome : ∀ s v, (write s v).isSome ↔ (read s).isSome)
    (hwrite : ∀ s v k', write s v = some k' → map (replaceAt s v) k = k')
    (hmap : ∀ f, operands (map f k) = (operands k).map fun p => (p.1, f p.1 p.2))
    (hself : ∀ f, (∀ s a, (s, a) ∈ operands k → f s a = a) → map f k = k) :
    SlotsAgree (operands k) read write k := by
  have hlisted : ∀ s v, (write s v).isSome ↔ s ∈ (operands k).map Prod.fst := by
    intro s v
    simp only [hsome, List.mem_map, Prod.exists, exists_and_right, exists_eq_right, hread,
      Option.isSome_iff_exists]
  refine ⟨hnodup, hread, fun s v => ⟨?_, ?_⟩, hlisted⟩
  · intro h
    obtain ⟨k', hk'⟩ := Option.isSome_iff_exists.mp
      ((hsome s v).mpr (Option.isSome_of_eq_some ((hread s v).mp h)))
    have hid : map (replaceAt s v) k = k := by
      refine hself _ fun t a ha => ?_
      by_cases hts : t = s
      · subst hts
        have hva : v = a := Option.some.inj (((hread t v).mp h).symm.trans ((hread t a).mp ha))
        rw [replaceAt, if_pos rfl, hva]
      · rw [replaceAt, if_neg hts]
    rw [hk', ← hwrite s v k' hk', hid]
  · intro h
    obtain ⟨⟨t, a⟩, ha, ht⟩ := List.mem_map.mp ((hlisted s v).mp (Option.isSome_of_eq_some h))
    obtain rfl : s = t := ht.symm
    have hin : (s, v) ∈ (operands k).map fun p => (p.1, replaceAt s v p.1 p.2) :=
      List.mem_map.mpr ⟨(s, a), ha, by simp [replaceAt]⟩
    rwa [← hmap, hwrite s v k h] at hin

end IrGraph
