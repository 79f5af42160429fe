import IrGraph.Proofs.Slot.Listing
import IrGraph.Terminator.Slot

/-! The slots of a terminator. -/

namespace IrGraph.Terminator

open TermSlot

/-- Changes every operand by what its slot says. -/
def mapOperands (f : TermSlot → Value → Value) : Terminator → Terminator
  | ret a => ret (a.map (f x))
  | br t => br (f target t)
  | condbr c t e => condbr (f cond c) (f targetTrue t) (f targetFalse e)
  | switch a d cases =>
    switch (f x a) (f targetDefault d)
      (mapAt (fun i c => ⟨f (caseValue i) c.value, f (caseTarget i) c.target⟩) cases)
  | indirectbr a targets =>
    indirectbr (f address a) (mapAt (fun i => f (validTarget i)) targets)
  | invoke t g args n e bundles =>
    invoke t (f invokee g) (mapAt (fun i => f (arg i)) args) (f normal n) (f exception e)
      (mapBundles bundleInput f bundles)
  | callbr t g args n others bundles =>
    callbr t (f callee g) (mapAt (fun i => f (arg i)) args) (f normal n)
      (mapAt (fun i => f (other i)) others) (mapBundles bundleInput f bundles)
  | resume a => resume (f x a)
  | catchswitch s handlers u =>
    catchswitch (f scope s) (mapAt (fun i => f (handler i)) handlers) (u.map (f unwindTarget))
  | catchret p t => catchret (f exited p) (f continued t)
  | cleanupret p u => cleanupret (f exited p) (u.map (f unwindTarget))
  | unreachable => unreachable

/-- How long the lists of operands are. -/
def listSizes : Terminator → List Nat
  | switch _ _ cases => [cases.length]
  | indirectbr _ targets => [targets.length]
  | invoke _ _ args _ _ bundles => args.length :: bundleSizes bundles
  | callbr _ _ args _ others bundles => args.length :: others.length :: bundleSizes bundles
  | catchswitch _ handlers _ => [handlers.length]
  | _ => []

variable {k k' : Terminator} {s : TermSlot} {v : Value} {f f' : TermSlot → Value → Value}

theorem nodup_slots (h : Addressable k.listSizes) : (k.operands.map Prod.fst).Nodup := by
  have hbundles {bundles : List Bundle} (h : Addressable (bundleSizes bundles)) :
      ((bundleOperands bundleInput bundles).map Prod.fst).Nodup :=
    nodup_bundleOperands (fun s => s.parts.2.headD 0) (by simp [parts]) (by simp) h
  cases k <;> simp only [listSizes, addressable_cons_iff] at h
  case ret a => cases a <;> simp [operands]
  case switch a d cases =>
    have hcases : ((cases.mapIdx fun i c =>
        [(caseValue i.toUInt32, c.value), (caseTarget i.toUInt32, c.target)]).flatten.map
          Prod.fst).Nodup :=
      nodup_flatten_mapIdx (fun s => s.parts.2.headD 0) h.1 (by simp) (by simp [parts])
    simpa [operands] using hcases
  case invoke t g args n e bundles =>
    have hargs : ((args.mapIdx fun i v => (arg i.toUInt32, v)).map Prod.fst).Nodup :=
      nodup_mapIdx_slot h.1 (by simp)
    have hbundles := hbundles h.2
    simp_all [operands, List.nodup_append, mem_bundleOperands]
  case callbr t g args n others bundles =>
    have hargs : ((args.mapIdx fun i v => (arg i.toUInt32, v)).map Prod.fst).Nodup :=
      nodup_mapIdx_slot h.1 (by simp)
    have hothers : ((others.mapIdx fun i v => (other i.toUInt32, v)).map Prod.fst).Nodup :=
      nodup_mapIdx_slot h.2.1 (by simp)
    have hbundles := hbundles h.2.2
    simp_all [operands, List.nodup_append, mem_bundleOperands]
    rintro i - s (⟨j, -, rfl⟩ | ⟨v, b, j, rfl, -⟩) <;> simp
  case catchswitch s handlers u =>
    cases u <;> simp [operands, List.nodup_append, nodup_mapIdx_slot, h]
  case cleanupret p u => cases u <;> simp [operands]
  all_goals simp [operands, nodup_mapIdx_slot, h]

theorem mem_operands_of_read : k.read s = some v → (s, v) ∈ k.operands := by
  fun_cases read k s <;> intro h
  -- a slot that the kind does not have
  case case30 => cases h
  all_goals
    simp only [operands, List.mem_cons, List.mem_append, List.mem_map, Option.mem_toList,
      mem_mapIdx_slot, mem_flatten_mapIdx, mem_bundleOperands, Prod.mk.injEq]
    grind

theorem read_of_mem_operands (hk : Addressable k.listSizes) (h : (s, v) ∈ k.operands) :
    k.read s = some v := by
  cases k <;> simp only [listSizes, addressable_cons_iff, addressable_bundleSizes_iff] at hk <;>
    simp only [operands, List.mem_cons, List.mem_append, List.mem_map, Option.mem_toList,
      mem_mapIdx_slot, mem_flatten_mapIdx, mem_bundleOperands, Prod.mk.injEq, List.not_mem_nil,
      or_false] at h
  all_goals grind [read]

theorem mem_operands_iff_read (h : Addressable k.listSizes) :
    (s, v) ∈ k.operands ↔ k.read s = some v :=
  ⟨read_of_mem_operands h, mem_operands_of_read⟩

theorem isSome_write_of_read : (k.read s).isSome → (k.write s v).isSome := by
  fun_cases read k s <;> intro h
  case case1 | case25 | case29 =>
    obtain ⟨a, rfl⟩ := Option.isSome_iff_exists.mp h
    rfl
  case case30 => cases h
  all_goals simp_all [write]

theorem isSome_read_of_write : (k.write s v).isSome → (k.read s).isSome := by
  fun_cases write k s v <;> intro h
  case case8 | case9 =>
    have hi := Option.isSome_of_isSome_bind h
    simpa [read] using hi
  case case30 => cases h
  all_goals simp_all [read]

theorem isSome_write_iff : (k.write s v).isSome ↔ (k.read s).isSome :=
  ⟨isSome_read_of_write, isSome_write_of_read⟩

theorem eq_of_write : k.write s v = some k' → k.mapOperands (replaceAt s v) = k' := by
  fun_cases write k s v <;> intro h
  all_goals simp only [Option.map_eq_some_iff, Option.bind_eq_bind, Option.bind_eq_some_iff,
    Option.pure_def, Option.some.injEq, reduceCtorEq] at h
  -- both fields of a switch case
  case case8 | case9 =>
    obtain ⟨c, hc, rfl⟩ := h
    simp only [mapOperands]
    congr 1
    apply mapAt_eq_set hc <;> simp +contextual [replaceAt]
  -- an input of a bundle
  case case16 | case21 =>
    obtain ⟨bundles, hb, rfl⟩ := h
    simp only [mapOperands, mapBundles_replaceAt bundleInput (by simp) hb]
    simp [replaceAt, mapAt_eq_self]
  -- a value in a list: targets, arguments and handlers
  case case11 =>
    obtain ⟨targets, htargets, rfl⟩ := h
    simp only [mapOperands, mapAt_replaceAt validTarget (by simp) htargets]
    simp [replaceAt]
  case case13 | case18 =>
    obtain ⟨args, hargs, rfl⟩ := h
    simp only [mapOperands, mapAt_replaceAt arg (by simp) hargs]
    simp [replaceAt, mapAt_eq_self, mapBundles_eq_self]
  case case20 =>
    obtain ⟨others, hothers, rfl⟩ := h
    simp only [mapOperands, mapAt_replaceAt other (by simp) hothers]
    simp [replaceAt, mapAt_eq_self, mapBundles_eq_self]
  case case24 =>
    obtain ⟨handlers, hhandlers, rfl⟩ := h
    simp only [mapOperands, mapAt_replaceAt handler (by simp) hhandlers]
    simp [replaceAt, map_eq_self]
  all_goals
    subst h
    simp [mapOperands, replaceAt, map_eq_self, mapAt_eq_self, mapBundles_eq_self]

theorem operands_mapOperands (h : Addressable k.listSizes) :
    (k.mapOperands f).operands = k.operands.map fun p => (p.1, f p.1 p.2) := by
  cases k <;> simp only [listSizes, addressable_cons_iff] at h
  case ret a => cases a <;> simp [mapOperands, operands]
  case catchswitch s handlers u =>
    cases u <;> simp [mapOperands, operands, mapAt_eq_mapIdx, map_mapIdx, Function.comp_def, h]
  case cleanupret p u => cases u <;> simp [mapOperands, operands]
  all_goals simp [mapOperands, operands, mapAt_eq_mapIdx, bundleOperands_mapBundles, map_mapIdx,
    Function.comp_def, h]

/-- The slots that are listed do not depend on what is in them. -/
theorem slots_mapOperands : (k.mapOperands f).operands.map Prod.fst = k.operands.map Prod.fst := by
  cases k
  case ret a => cases a <;> simp [mapOperands, operands]
  case switch a d cases =>
    simp only [mapOperands, operands, List.map_cons]
    congr 2
    exact slots_mapIdx_mapAt fun _ _ _ => rfl
  case catchswitch s handlers u =>
    cases u <;> simp [mapOperands, operands, map_fst_mapIdx_slot]
  case cleanupret p u => cases u <;> simp [mapOperands, operands]
  all_goals simp [mapOperands, operands, map_fst_mapIdx_slot, slots_mapBundles]

theorem listSizes_mapOperands : (k.mapOperands f).listSizes = k.listSizes := by
  cases k <;> simp [mapOperands, listSizes, bundleSizes_mapBundles]

theorem mapOperands_eq_self (h : ∀ s a, k.read s = some a → f s a = a) : k.mapOperands f = k := by
  cases k with
  | ret a =>
    have hx : a.map (f x) = a := map_eq_self (h x)
    rw [mapOperands, hx]
  | br t => rw [mapOperands, h target t rfl]
  | condbr c t e => rw [mapOperands, h cond c rfl, h targetTrue t rfl, h targetFalse e rfl]
  | switch a d cases =>
    rw [mapOperands, h x a rfl, h targetDefault d rfl, mapAt_eq_self]
    intro i c hi
    rw [h (caseValue i) c.value (by rw [read, hi]; rfl),
      h (caseTarget i) c.target (by rw [read, hi]; rfl)]
  | indirectbr a targets =>
    rw [mapOperands, h address a rfl, mapAt_eq_self fun i => h (validTarget i)]
  | invoke t g args n e bundles =>
    rw [mapOperands, h invokee g rfl, h normal n rfl, h exception e rfl,
      mapAt_eq_self fun i => h (arg i), mapBundles_eq_self fun b i => h (bundleInput b i)]
  | callbr t g args n others bundles =>
    rw [mapOperands, h callee g rfl, h normal n rfl, mapAt_eq_self fun i => h (arg i),
      mapAt_eq_self fun i => h (other i), mapBundles_eq_self fun b i => h (bundleInput b i)]
  | resume a => rw [mapOperands, h x a rfl]
  | catchswitch s handlers u =>
    have hu : u.map (f unwindTarget) = u := map_eq_self (h unwindTarget)
    rw [mapOperands, h scope s rfl, mapAt_eq_self fun i => h (handler i), hu]
  | catchret p t => rw [mapOperands, h exited p rfl, h continued t rfl]
  | cleanupret p u =>
    have hu : u.map (f unwindTarget) = u := map_eq_self (h unwindTarget)
    rw [mapOperands, h exited p rfl, hu]
  | unreachable => rfl

theorem mapOperands_mapOperands :
    (k.mapOperands f).mapOperands f' = k.mapOperands fun s a => f' s (f s a) := by
  cases k <;> simp [mapOperands, mapAt_mapAt, mapBundles_mapBundles, Function.comp_def]

theorem read_mapOperands : (k.mapOperands f).read s = (k.read s).map (f s) := by
  cases k <;> cases s <;> simp [mapOperands, read, readBundle_mapBundles, Function.comp_def]

theorem slotsAgree (h : Addressable k.listSizes) : SlotsAgree k.operands k.read k.write k :=
  .of_map mapOperands (nodup_slots h) (fun _ _ => mem_operands_iff_read h)
    (fun _ _ => isSome_write_iff) (fun _ _ _ => eq_of_write) (fun _ => operands_mapOperands h)
    fun _ hf => mapOperands_eq_self fun s a hs => hf s a (mem_operands_of_read hs)

end IrGraph.Terminator
