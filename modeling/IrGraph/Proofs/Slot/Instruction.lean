import IrGraph.Proofs.Slot.Listing

/-! The slots of an instruction. -/

namespace IrGraph.Instruction

open InstSlot

/-- Changes every operand by what its slot says. -/
def mapOperands (f : InstSlot → Value → Value) : Instruction → Instruction
  | unary op a => unary op (f x a)
  | binary op a b => binary op (f x a) (f y b)
  | bitwise op a b => bitwise op (f x a) (f y b)
  | extractElement a i => extractElement (f x a) (f index i)
  | insertElement a e i => insertElement (f x a) (f elem e) (f index i)
  | shuffleVector a b m => shuffleVector (f x a) (f y b) (f mask m)
  | extractValue a is => extractValue (f x a) is
  | insertValue a e is => insertValue (f x a) (f elem e) is
  | alloca t n s => alloca t (n.map (f count)) s
  | load t s w => load t (f source s) w
  | store s d w => store (f source s) (f dest d) w
  | fence o => fence o
  | cmpxchg p e r o o' => cmpxchg (f pointer p) (f expected e) (f replacement r) o o'
  | atomicrmw op d a o => atomicrmw op (f dest d) (f x a) o
  | getElementPtr t s is b =>
    getElementPtr t (f source s) (mapAt (fun i => f (pointerIndex i)) is) b
  | conversion op a t => conversion op (f converted a) t
  | icmp p a b => icmp p (f x a) (f y b)
  | fcmp p a b => fcmp p (f x a) (f y b)
  | phi t incoming =>
    phi t (mapAt (fun i e => ⟨f (incomingValue i) e.value, f (incomingPred i) e.pred⟩) incoming)
  | select c a b => select (f cond c) (f x a) (f y b)
  | call t g args bundles tail =>
    call t (f callee g) (mapAt (fun i => f (arg i)) args) (mapBundles bundleInput f bundles) tail
  | vaArg l t => vaArg (f argList l) t
  | landingpad t cleanup clauses =>
    landingpad t cleanup (mapAt (fun i c => { c with value := f (clause i) c.value }) clauses)
  | catchpad s args => catchpad (f scope s) (mapAt (fun i => f (arg i)) args)
  | cleanuppad s args => cleanuppad (f scope s) (mapAt (fun i => f (arg i)) args)
  | comment text => comment text

/-- How long the lists of operands are. -/
def listSizes : Instruction → List Nat
  | getElementPtr _ _ is _ => [is.length]
  | phi _ incoming => [incoming.length]
  | call _ _ args bundles _ => args.length :: bundleSizes bundles
  | landingpad _ _ clauses => [clauses.length]
  | catchpad _ args | cleanuppad _ args => [args.length]
  | _ => []

variable {k k' : Instruction} {s : InstSlot} {v : Value} {f f' : InstSlot → Value → Value}

theorem nodup_slots (h : Addressable k.listSizes) : (k.operands.map Prod.fst).Nodup := by
  cases k <;> simp only [listSizes, addressable_cons_iff] at h
  case alloca t n s => cases n <;> simp [operands]
  case phi t incoming =>
    refine nodup_flatten_mapIdx (fun s => s.parts.2.headD 0) h.1 ?_ ?_
    · simp
    · simp [parts]
  case call t g args bundles tail =>
    have hargs : ((args.mapIdx fun i v => (arg i.toUInt32, v)).map Prod.fst).Nodup :=
      nodup_mapIdx_slot h.1 (by simp)
    have hbundles : ((bundleOperands bundleInput bundles).map Prod.fst).Nodup :=
      nodup_bundleOperands (fun s => s.parts.2.headD 0) (by simp [parts]) (by simp) h.2
    simp_all [operands, List.nodup_append, mem_bundleOperands]
  all_goals simp [operands, nodup_mapIdx_slot, h]

theorem mem_operands_of_read : k.read s = some v → (s, v) ∈ k.operands := by
  fun_cases read k s <;> intro h
  -- a slot that the kind does not have
  case case47 => cases h
  all_goals
    simp only [operands, List.mem_cons, List.mem_append, List.mem_map, Option.mem_toList,
      mem_mapIdx_slot, mem_flatten_mapIdx, mem_bundleOperands, Prod.mk.injEq]
    grind

theorem read_of_mem_operands (hk : Addressable k.listSizes) (h : (s, v) ∈ k.operands) :
    k.read s = some v := by
  cases k <;> simp only [listSizes, addressable_cons_iff, addressable_bundleSizes_iff] at hk <;>
    simp only [operands, List.mem_cons, List.mem_append, List.mem_map, Option.mem_toList,
      mem_mapIdx_slot, mem_flatten_mapIdx, mem_bundleOperands, Prod.mk.injEq, List.not_mem_nil,
      or_false] at h
  all_goals grind [read]

theorem mem_operands_iff_read (h : Addressable k.listSizes) :
    (s, v) ∈ k.operands ↔ k.read s = some v :=
  ⟨read_of_mem_operands h, mem_operands_of_read⟩

theorem isSome_write_of_read : (k.read s).isSome → (k.write s v).isSome := by
  fun_cases read k s <;> intro h
  case case17 =>
    obtain ⟨n, rfl⟩ := Option.isSome_iff_exists.mp h
    rfl
  case case47 => cases h
  all_goals simp_all [write]

theorem isSome_read_of_write : (k.write s v).isSome → (k.read s).isSome := by
  fun_cases write k s v <;> intro h
  case case33 | case34 | case42 =>
    have hi := Option.isSome_of_isSome_bind h
    simpa [read] using hi
  case case47 => cases h
  all_goals simp_all [read]

theorem isSome_write_iff : (k.write s v).isSome ↔ (k.read s).isSome :=
  ⟨isSome_read_of_write, isSome_write_of_read⟩

theorem eq_of_write : k.write s v = some k' → k.mapOperands (replaceAt s v) = k' := by
  fun_cases write k s v <;> intro h
  all_goals simp only [Option.map_eq_some_iff, Option.bind_eq_bind, Option.bind_eq_some_iff,
    Option.pure_def, Option.some.injEq, reduceCtorEq] at h
  -- a field of a record in a list: both fields of an edge, and a clause
  case case33 | case34 | case42 =>
    obtain ⟨a, ha, rfl⟩ := h
    simp only [mapOperands]
    congr 1
    apply mapAt_eq_set ha <;> simp +contextual [replaceAt]
  -- an input of a bundle
  case case40 =>
    obtain ⟨bundles, hb, rfl⟩ := h
    simp only [mapOperands, mapBundles_replaceAt bundleInput (by simp) hb]
    simp [replaceAt, mapAt_eq_self]
  -- a value in a list: an index of an address, and the arguments
  case case27 =>
    obtain ⟨is, his, rfl⟩ := h
    simp only [mapOperands, mapAt_replaceAt pointerIndex (by simp) his]
    simp [replaceAt]
  case case39 | case44 | case46 =>
    obtain ⟨args, hargs, rfl⟩ := h
    simp only [mapOperands, mapAt_replaceAt arg (by simp) hargs]
    simp [replaceAt, mapBundles_eq_self]
  all_goals
    subst h
    simp [mapOperands, replaceAt, mapAt_eq_self, mapBundles_eq_self]

theorem operands_mapOperands (h : Addressable k.listSizes) :
    (k.mapOperands f).operands = k.operands.map fun p => (p.1, f p.1 p.2) := by
  cases k <;> simp only [listSizes, addressable_cons_iff] at h
  case alloca t n s => cases n <;> simp [mapOperands, operands]
  all_goals simp [mapOperands, operands, mapAt_eq_mapIdx, bundleOperands_mapBundles, map_mapIdx,
    Function.comp_def, h]

/-- The slots that are listed do not depend on what is in them. -/
theorem slots_mapOperands : (k.mapOperands f).operands.map Prod.fst = k.operands.map Prod.fst := by
  cases k
  case alloca t n s => cases n <;> simp [mapOperands, operands]
  case phi t incoming => exact slots_mapIdx_mapAt fun _ _ _ => rfl
  all_goals simp [mapOperands, operands, map_fst_mapIdx_slot, slots_mapBundles]

theorem listSizes_mapOperands : (k.mapOperands f).listSizes = k.listSizes := by
  cases k <;> simp [mapOperands, listSizes, bundleSizes_mapBundles]

theorem mapOperands_eq_self (h : ∀ s a, k.read s = some a → f s a = a) : k.mapOperands f = k := by
  cases k with
  | unary op a | extractValue a is | vaArg a t | conversion op a t | load t a w =>
    rw [mapOperands, h _ a rfl]
  | binary op a b | bitwise op a b | icmp p a b | fcmp p a b | store a b w
  | extractElement a b | insertValue a b is | atomicrmw op a b o =>
    rw [mapOperands, h _ a rfl, h _ b rfl]
  | insertElement a b c | shuffleVector a b c | cmpxchg a b c o o' | select a b c =>
    rw [mapOperands, h _ a rfl, h _ b rfl, h _ c rfl]
  | alloca t n s =>
    have hn : n.map (f count) = n := map_eq_self (h count)
    rw [mapOperands, hn]
  | getElementPtr t s is b =>
    rw [mapOperands, h source s rfl, mapAt_eq_self fun i => h (pointerIndex i)]
  | phi t incoming =>
    rw [mapOperands, mapAt_eq_self]
    intro i e hi
    rw [h (incomingValue i) e.value (by rw [read, hi]; rfl),
      h (incomingPred i) e.pred (by rw [read, hi]; rfl)]
  | call t g args bundles tail =>
    rw [mapOperands, h callee g rfl, mapAt_eq_self fun i => h (arg i),
      mapBundles_eq_self fun b i => h (bundleInput b i)]
  | landingpad t cleanup clauses =>
    rw [mapOperands, mapAt_eq_self]
    intro i c hi
    rw [h (clause i) c.value (by rw [read, hi]; rfl)]
  | catchpad s args | cleanuppad s args =>
    rw [mapOperands, h scope s rfl, mapAt_eq_self fun i => h (arg i)]
  | fence o => rfl
  | comment text => rfl

theorem mapOperands_mapOperands :
    (k.mapOperands f).mapOperands f' = k.mapOperands fun s a => f' s (f s a) := by
  cases k <;> simp [mapOperands, mapAt_mapAt, mapBundles_mapBundles, Function.comp_def]

theorem read_mapOperands : (k.mapOperands f).read s = (k.read s).map (f s) := by
  cases k <;> cases s <;> simp [mapOperands, read, readBundle_mapBundles, Function.comp_def]

theorem slotsAgree (h : Addressable k.listSizes) : SlotsAgree k.operands k.read k.write k :=
  .of_map mapOperands (nodup_slots h) (fun _ _ => mem_operands_iff_read h)
    (fun _ _ => isSome_write_iff) (fun _ _ _ => eq_of_write) (fun _ => operands_mapOperands h)
    fun _ hf => mapOperands_eq_self fun s a hs => hf s a (mem_operands_of_read hs)

end IrGraph.Instruction
