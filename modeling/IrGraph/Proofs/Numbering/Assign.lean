import Mathlib.Data.Nat.Find
import IrGraph.Proofs.Numbering.Layout

/-! Numbering. A pass over a list of values gives numbers to those that take one, as long as the
numbers that are there already are the ones it would give; at the first that is not, it stops. -/

namespace IrGraph.Graph

/-- The values of a list have consecutive numbers, from `next` on. -/
def numbered (g : Graph) (next : Nat) (l : List Value) : Graph :=
  g.mapIdents fun v ident =>
    if v ∈ l then { ident with id := some (next + l.idxOf v) } else ident

/-- Numbers in a list are those of the positions, from `next` on. -/
def Fits (g : Graph) (next : Nat) (l : List Value) : Prop :=
  ∀ k v id, l[k]? = some v → g.idOf? v = some id → id = next + k

variable {g g' : Graph} {f : FuncRef} {func : Func} {name : String} {next : Nat} {v : Value}
  {l : List Value} {ident : Ident}

section Numbered

theorem numbered_nil (g : Graph) (next : Nat) : g.numbered next [] = g :=
  mapIdents_eq_self fun _ _ _ => by simp

theorem numbered_cons (hv : v ∉ l) :
    (g.numbered next [v]).numbered (next + 1) l = g.numbered next (v :: l) := by
  rw [numbered, numbered, mapIdents_mapIdents]
  refine mapIdents_congr fun w ident _ => ?_
  by_cases hw : w = v
  · subst hw
    simp [hv]
  · by_cases hl : w ∈ l
    · simp [hw, hl, List.idxOf_cons_ne l (Ne.symm hw), Nat.add_assoc, Nat.add_comm 1]
    · simp [hw, hl]

theorem numbered_singleton (g : Graph) (next : Nat) (v : Value) :
    g.mapIdents (onlyAt v fun ident => { ident with id := some next }) = g.numbered next [v] := by
  refine mapIdents_congr fun w _ _ => ?_
  by_cases hw : w = v <;> simp [onlyAt, hw]

theorem numbered_singleton_eq_self (hv : g.idOf? v = some next) : g.numbered next [v] = g := by
  obtain ⟨ident, hident, hid⟩ := Option.bind_eq_some_iff.mp hv
  refine mapIdents_eq_self fun w ident' hw => ?_
  by_cases hwv : w = v
  · subst hwv
    obtain rfl := Option.some.inj (hident.symm.trans hw)
    simp [← hid]
  · simp [hwv]

theorem takesNumber_numbered (v : Value) :
    (g.numbered next l).takesNumber v = g.takesNumber v := by
  refine takesNumber_mapIdents (fun w ident => ?_) v
  split <;> rfl

theorem idOf?_numbered_of_not_mem (hv : v ∉ l) : (g.numbered next l).idOf? v = g.idOf? v := by
  simp [idOf?, numbered, hv]

theorem idOf?_numbered (hl : l.Nodup) {k : Nat} (hk : l[k]? = some v)
    (hv : ∃ ident, g.identOf? v = some ident) : (g.numbered next l).idOf? v = some (next + k) := by
  obtain ⟨ident, hident⟩ := hv
  obtain ⟨hlt, rfl⟩ := List.getElem?_eq_some_iff.mp hk
  simp [idOf?, numbered, hident, hl.idxOf_getElem]

theorem exists_identOf?_numbered (hv : ∃ ident, g.identOf? v = some ident) :
    ∃ ident, (g.numbered next l).identOf? v = some ident := by
  obtain ⟨ident, hident⟩ := hv
  exact ⟨_, by rw [numbered, identOf?_mapIdents, hident]; rfl⟩

end Numbered

theorem fits_numbered_singleton (hv : v ∉ l) (h : g.Fits next (v :: l)) :
    (g.numbered next [v]).Fits (next + 1) l := by
  intro k w id hk hid
  have hwv : w ∉ [v] := by
    rw [List.mem_singleton]
    rintro rfl
    exact hv (List.mem_of_getElem? hk)
  rw [idOf?_numbered_of_not_mem hwv] at hid
  have hpos := h (k + 1) w id hk hid
  omega

/-- The first value of a list that fits has no number, or the first one. -/
theorem Fits.id_eq (h : g.Fits next (v :: l)) (hv : g.identOf? v = some ident) (id : Nat)
    (hid : ident.id = some id) : id = next := by
  simpa using h 0 v id rfl (by simp [idOf?, hv, hid])

section Pass

theorem nextNumber_of_lt (h : next + 1 < UInt32.size) : nextNumber next = .ok (next + 1) :=
  if_pos h

theorem nextNumber_of_le (h : UInt32.size ≤ next + 1) : nextNumber next = .error .overflow :=
  if_neg (Nat.not_lt.mpr h)

theorem nextNumber_eq_ok {after : Nat} (h : nextNumber next = .ok after) : after = next + 1 := by
  unfold nextNumber at h
  split at h
  · exact (Except.ok.inj h).symm
  · cases h

/-- One value of the pass: passed over, numbered already, to be numbered, or out of order. -/
theorem numberFrom_cons (hyields : g.isNumbered v = .ok (g.yieldsValue v))
    (hv : g.identOf? v = some ident) :
    g.numberFrom name next (v :: l) =
      if g.takesNumber v then
        match ident.id with
        | some found =>
          if found = next then nextNumber next >>= fun next => g.numberFrom name next l
          else .ok (some ⟨name, next, found⟩, g)
        | none => nextNumber next >>= fun after =>
          (g.mapIdents (onlyAt v fun ident => { ident with id := some next })).numberFrom name
            after l
      else g.numberFrom name next l := by
  have hident := localIdent?_of_identOf? hv
  have hmodify := modifyIdent_of_identOf? (f := fun ident => { ident with id := some next }) hv
  rw [numberFrom, hyields, takesNumber, hv]
  obtain ⟨_ | _, _ | found⟩ := ident <;> cases g.yieldsValue v
  all_goals simp [bind, Except.bind, hident, hmodify, Ident.isUnnamed]
  rfl

theorem numberFrom_skip (h : g.Known) (hv : g.identOf? v = some ident)
    (hskip : ¬g.takesNumber v) : g.numberFrom name next (v :: l) = g.numberFrom name next l := by
  rw [numberFrom_cons (isNumbered_eq_yieldsValue h hv) hv, if_neg hskip]

theorem numberFrom_fit (h : g.Known) (hv : g.identOf? v = some ident) (htakes : g.takesNumber v)
    (hfit : ∀ id, ident.id = some id → id = next) :
    g.numberFrom name next (v :: l) =
      nextNumber next >>= fun after => (g.numbered next [v]).numberFrom name after l := by
  rw [numberFrom_cons (isNumbered_eq_yieldsValue h hv) hv, if_pos htakes]
  cases hid : ident.id with
  | none => simp only [numbered_singleton]
  | some found =>
    obtain rfl := hfit found hid
    have hself : g.numbered found [v] = g := numbered_singleton_eq_self (by simp [idOf?, hv, hid])
    simp [hself]

theorem numberFrom_misfit (h : g.Known) (hv : g.identOf? v = some ident) (htakes : g.takesNumber v)
    {found : Nat} (hid : ident.id = some found) (hne : found ≠ next) :
    g.numberFrom name next (v :: l) = .ok (some ⟨name, next, found⟩, g) := by
  rw [numberFrom_cons (isNumbered_eq_yieldsValue h hv) hv, if_pos htakes, hid]
  simp [hne]

/-- A pass goes on behind what fits, with that numbered, as long as the counter does. -/
theorem numberFrom_append {rest : List Value} (h : g.Known) (hl : l.Nodup)
    (hthere : ∀ v ∈ l, ∃ ident, g.identOf? v = some ident)
    (hfits : g.Fits next (l.filter g.takesNumber))
    (hroom : next + (l.filter g.takesNumber).length < UInt32.size) :
    g.numberFrom name next (l ++ rest) =
      (g.numbered next (l.filter g.takesNumber)).numberFrom name
        (next + (l.filter g.takesNumber).length) rest := by
  induction l generalizing g next with
  | nil => simp [numbered_nil]
  | cons v l ih =>
    obtain ⟨hv, hl⟩ := List.nodup_cons.mp hl
    obtain ⟨ident, hident⟩ := hthere v List.mem_cons_self
    have hthere' : ∀ w ∈ l, ∃ ident, g.identOf? w = some ident :=
      fun w hw => hthere w (List.mem_cons_of_mem v hw)
    by_cases htakes : g.takesNumber v
    · rw [List.filter_cons_of_pos htakes] at hfits hroom ⊢
      rw [List.length_cons] at hroom
      have hv' : v ∉ l.filter g.takesNumber := fun hmem => hv (List.mem_of_mem_filter hmem)
      have hknown : (g.numbered next [v]).Known := h.mapIdents _
      have hfilter : l.filter (g.numbered next [v]).takesNumber = l.filter g.takesNumber :=
        List.filter_congr fun w _ => takesNumber_numbered w
      have hrest := fits_numbered_singleton hv' hfits
      rw [← hfilter] at hrest
      rw [List.cons_append, numberFrom_fit h hident htakes (hfits.id_eq hident),
        nextNumber_of_lt (by omega), ok_bind,
        ih hknown hl (fun w hw => exists_identOf?_numbered (hthere' w hw)) hrest
          (by rw [hfilter]; omega),
        hfilter, numbered_cons hv', List.length_cons, Nat.add_assoc, Nat.add_comm 1]
    · rw [List.filter_cons_of_neg htakes] at hfits hroom ⊢
      rw [List.cons_append, numberFrom_skip h hident htakes, ih h hl hthere' hfits hroom]

/-- A pass over more values than there are numbers ends in a fault, when all numbers fit. -/
theorem numberFrom_overflow (h : g.Known) (hl : l.Nodup)
    (hthere : ∀ v ∈ l, ∃ ident, g.identOf? v = some ident)
    (hfits : g.Fits next (l.filter g.takesNumber)) (hnext : next < UInt32.size)
    (hmany : UInt32.size ≤ next + (l.filter g.takesNumber).length) :
    g.numberFrom name next l = .error .overflow := by
  induction l generalizing g next with
  | nil =>
    simp only [List.filter_nil, List.length_nil] at hmany
    omega
  | cons v l ih =>
    obtain ⟨hv, hl⟩ := List.nodup_cons.mp hl
    obtain ⟨ident, hident⟩ := hthere v List.mem_cons_self
    have hthere' : ∀ w ∈ l, ∃ ident, g.identOf? w = some ident :=
      fun w hw => hthere w (List.mem_cons_of_mem v hw)
    by_cases htakes : g.takesNumber v
    · rw [List.filter_cons_of_pos htakes] at hfits hmany
      rw [List.length_cons] at hmany
      rw [numberFrom_fit h hident htakes (hfits.id_eq hident)]
      by_cases hlast : next + 1 < UInt32.size
      · have hv' : v ∉ l.filter g.takesNumber := fun hmem => hv (List.mem_of_mem_filter hmem)
        have hknown : (g.numbered next [v]).Known := h.mapIdents _
        have hfilter : l.filter (g.numbered next [v]).takesNumber = l.filter g.takesNumber :=
          List.filter_congr fun w _ => takesNumber_numbered w
        have hrest := fits_numbered_singleton hv' hfits
        rw [← hfilter] at hrest
        rw [nextNumber_of_lt hlast, ok_bind]
        exact ih hknown hl (fun w hw => exists_identOf?_numbered (hthere' w hw)) hrest hlast
          (by rw [hfilter]; omega)
      · rw [nextNumber_of_le (Nat.not_lt.mp hlast)]
        rfl
    · rw [List.filter_cons_of_neg htakes] at hfits hmany
      rw [numberFrom_skip h hident htakes]
      exact ih h hl hthere' hfits hnext hmany

theorem exists_misfit_of_not_fits (hfits : ¬g.Fits next l) :
    ∃ k v found, l[k]? = some v ∧ g.idOf? v = some found ∧ found ≠ next + k ∧
      g.Fits next (l.take k) := by
  classical
  have hex : ∃ k v found, l[k]? = some v ∧ g.idOf? v = some found ∧ found ≠ next + k := by
    simpa [Fits] using hfits
  obtain ⟨v, found, hk, hid, hne⟩ := Nat.find_spec hex
  refine ⟨Nat.find hex, v, found, hk, hid, hne, ?_⟩
  intro j w id hj hw
  rw [List.getElem?_take] at hj
  split at hj
  · rename_i hlt
    by_contra hid
    exact Nat.find_min hex hlt ⟨w, id, hj, hw, hid⟩
  · cases hj

end Pass

/-- How numbering a list ends: all of it gets its numbers, or what stands before the first value
that has another number. -/
inductive Numbering (g : Graph) (name : String) (l : List Value) : Option OutOfOrder → Graph → Prop
  | all (hfits : g.Fits 0 l) : Numbering g name l none (g.numbered 0 l)
  | stopped {k : Nat} {v : Value} {found : Nat} (hk : l[k]? = some v) (hid : g.idOf? v = some found)
      (hne : found ≠ k) (hfits : g.Fits 0 (l.take k)) :
      Numbering g name l (some ⟨name, k, found⟩) (g.numbered 0 (l.take k))

section Outcome

variable {outcome outcome' : Option OutOfOrder} {g'' : Graph}

theorem not_mem_take {k : Nat} (hl : l.Nodup) (hk : l[k]? = some v) : v ∉ l.take k := by
  intro hmem
  obtain ⟨j, hj⟩ := List.mem_iff_getElem?.mp hmem
  rw [List.getElem?_take] at hj
  split at hj
  · rename_i hlt
    obtain ⟨hklt, rfl⟩ := List.getElem?_eq_some_iff.mp hk
    obtain ⟨hjlt, hj⟩ := List.getElem?_eq_some_iff.mp hj
    rw [hl.getElem_inj_iff] at hj
    omega
  · cases hj

/-- What stands before the value at a position of a filtered list. -/
theorem exists_before_of_filter {p : Value → Bool} {k : Nat} (hk : (l.filter p)[k]? = some v) :
    ∃ before rest, l = before ++ v :: rest ∧ before.filter p = (l.filter p).take k := by
  obtain ⟨hklt, hv⟩ := List.getElem?_eq_some_iff.mp hk
  have hsplit : l.filter p = (l.filter p).take k ++ v :: (l.filter p).drop (k + 1) := by
    rw [← hv, ← List.drop_eq_getElem_cons hklt, List.take_append_drop]
  obtain ⟨l₁, l₂, hl, hl₁, hl₂⟩ := List.filter_eq_append_iff.mp hsplit
  obtain ⟨m, rest, rfl, hm, -, -⟩ := List.filter_eq_cons_iff.mp hl₂
  refine ⟨l₁ ++ m, rest, by rw [hl, List.append_assoc], ?_⟩
  rw [List.filter_append, hl₁, List.filter_eq_nil_iff.mpr hm, List.append_nil]

theorem numberFrom_outcome (h : g.Known) (hl : l.Nodup)
    (hthere : ∀ v ∈ l, ∃ ident, g.identOf? v = some ident)
    (hroom : (l.filter g.takesNumber).length < UInt32.size) :
    ∃ outcome g', g.numberFrom name 0 l = .ok (outcome, g') ∧
      g.Numbering name (l.filter g.takesNumber) outcome g' := by
  by_cases hfits : g.Fits 0 (l.filter g.takesNumber)
  · refine ⟨none, _, ?_, .all hfits⟩
    have hpass : g.numberFrom name 0 (l ++ []) = _ :=
      numberFrom_append h hl hthere hfits (by rwa [Nat.zero_add])
    rwa [List.append_nil] at hpass
  · obtain ⟨k, v, found, hk, hid, hne, hbefore⟩ := exists_misfit_of_not_fits hfits
    rw [Nat.zero_add] at hne
    refine ⟨_, _, ?_, .stopped hk hid hne hbefore⟩
    have htakes : g.takesNumber v := (List.mem_filter.mp (List.mem_of_getElem? hk)).2
    have hout : v ∉ (l.filter g.takesNumber).take k := not_mem_take (hl.filter _) hk
    obtain ⟨hlt, -⟩ := List.getElem?_eq_some_iff.mp hk
    have hlen : ((l.filter g.takesNumber).take k).length = k :=
      List.length_take_of_le (Nat.le_of_lt hlt)
    obtain ⟨before, rest, hsplit, hfilter⟩ := exists_before_of_filter hk
    have hnd : before.Nodup := (hsplit ▸ hl).of_append_left
    have hpass : g.numberFrom name 0 (before ++ v :: rest) = _ :=
      numberFrom_append h hnd (fun w hw => hthere w (hsplit ▸ List.mem_append_left _ hw))
        (hfilter.symm ▸ hbefore) (by rw [hfilter, hlen]; omega)
    rw [← hsplit, hfilter, hlen, Nat.zero_add] at hpass
    -- the value still has the number that it had
    have hstill : (g.numbered 0 ((l.filter g.takesNumber).take k)).idOf? v = some found := by
      rw [idOf?_numbered_of_not_mem hout, hid]
    obtain ⟨ident, hident, hfound⟩ := Option.bind_eq_some_iff.mp hstill
    have hknown : (g.numbered 0 ((l.filter g.takesNumber).take k)).Known := h.mapIdents _
    rw [hpass, numberFrom_misfit hknown hident (by rwa [takesNumber_numbered]) hfound hne]

theorem Numbering.unique (h : g.Numbering name l outcome g')
    (h' : g.Numbering name l outcome' g'') : outcome = outcome' ∧ g' = g'' := by
  -- no value is both out of order and before the end
  have hclash {k : Nat} {v : Value} {found : Nat} {m : List Value} (hk : m[k]? = some v)
      (hid : g.idOf? v = some found) (hne : found ≠ k) (hfits : g.Fits 0 m) : False :=
    hne (by simpa using hfits k v found hk hid)
  cases h with
  | all hfits =>
    cases h' with
    | all => exact ⟨rfl, rfl⟩
    | stopped hk hid hne => exact (hclash hk hid hne hfits).elim
  | @stopped k v found hk hid hne hfits =>
    cases h' with
    | all hall => exact (hclash hk hid hne hall).elim
    | @stopped j w found' hj hid' hne' hfits' =>
      rcases Nat.lt_trichotomy k j with hlt | rfl | hlt
      · exact (hclash (by rw [List.getElem?_take, if_pos hlt, hk]) hid hne hfits').elim
      · obtain rfl := Option.some.inj (hk.symm.trans hj)
        obtain rfl := Option.some.inj (hid.symm.trans hid')
        exact ⟨rfl, rfl⟩
      · exact (hclash (by rw [List.getElem?_take, if_pos hlt, hj]) hid' hne' hfits).elim

theorem numbered_numbered (g : Graph) (next : Nat) (l : List Value) :
    (g.numbered next l).numbered next l = g.numbered next l := by
  rw [numbered, numbered, mapIdents_mapIdents]
  refine mapIdents_congr fun w ident _ => ?_
  by_cases hw : w ∈ l <;> simp [hw]

theorem fits_numbered (hl : l.Nodup) (hthere : ∀ v ∈ l, ∃ ident, g.identOf? v = some ident) :
    (g.numbered next l).Fits next l := by
  intro k v id hk hid
  rw [idOf?_numbered hl hk (hthere v (List.mem_of_getElem? hk))] at hid
  exact (Option.some.inj hid).symm

theorem Numbering.again (h : g.Numbering name l outcome g') (hl : l.Nodup)
    (hthere : ∀ v ∈ l, ∃ ident, g.identOf? v = some ident) : g'.Numbering name l outcome g' := by
  cases h with
  | all hfits =>
    have hall : (g.numbered 0 l).Numbering name l none _ := .all (fits_numbered hl hthere)
    rwa [numbered_numbered] at hall
  | @stopped k v found hk hid hne hfits =>
    have hid' : (g.numbered 0 (l.take k)).idOf? v = some found := by
      rw [idOf?_numbered_of_not_mem (not_mem_take hl hk), hid]
    have hfits' : (g.numbered 0 (l.take k)).Fits 0 (l.take k) :=
      fits_numbered (hl.sublist (List.take_sublist k l)) fun w hw =>
        hthere w (List.mem_of_mem_take hw)
    have hstopped : (g.numbered 0 (l.take k)).Numbering name l (some ⟨name, k, found⟩) _ :=
      .stopped hk hid' hne hfits'
    rwa [numbered_numbered] at hstopped

theorem Numbering.eq_none_iff (h : g.Numbering name l outcome g') :
    outcome = none ↔ g.Fits 0 l := by
  cases h with
  | all hfits => exact iff_of_true rfl hfits
  | @stopped k v found hk hid hne =>
    refine iff_of_false (by simp) fun hfits => hne ?_
    rw [hfits k v found hk hid, Nat.zero_add]

theorem Numbering.eq_numbered (h : g.Numbering name l none g') : g' = g.numbered 0 l := by
  cases h
  rfl

theorem Numbering.idOf?_eq (h : g.Numbering name l none g') (hl : l.Nodup)
    (hthere : ∀ v ∈ l, ∃ ident, g.identOf? v = some ident) {k : Nat} (hk : l[k]? = some v) :
    g'.idOf? v = some k := by
  cases h
  rw [idOf?_numbered hl hk (hthere v (List.mem_of_getElem? hk)), Nat.zero_add]

theorem Numbering.exists_numbered (h : g.Numbering name l outcome g') :
    ∃ l', g' = g.numbered 0 l' := by
  cases h with
  | all => exact ⟨l, rfl⟩
  | stopped => exact ⟨l.take _, rfl⟩

end Outcome

section Assign

variable {outcome : Option OutOfOrder}

theorem nodup_unnamedLocals (h : g.Linked) (f : FuncRef) : (g.unnamedLocals f).Nodup :=
  (nodup_places h).filter _

theorem exists_identOf?_of_mem_unnamedLocals (h : g.Linked) (hv : v ∈ g.unnamedLocals f) :
    ∃ ident, g.identOf? v = some ident :=
  exists_identOf?_of_mem h (List.mem_of_mem_filter hv)

theorem assignIds_eq_numberFrom (h : g.Linked) (hf : g.funcs.get? f = some func) :
    g.assignIds f = g.numberFrom func.name 0 (g.places f) := by
  rw [assignIds, Arena.get_eq_ok_iff.mpr hf, ok_bind, locals_eq_places h hf, ok_bind]

theorem assignIds_outcome (h : g.Reachable) (hf : g.funcs.get? f = some func)
    (hroom : (g.unnamedLocals f).length < UInt32.size) :
    ∃ outcome g', g.assignIds f = .ok (outcome, g') ∧
      g.Numbering func.name (g.unnamedLocals f) outcome g' := by
  rw [assignIds_eq_numberFrom h.linked hf]
  exact numberFrom_outcome h.known (nodup_places h.linked)
    (fun v hv => exists_identOf?_of_mem h.linked hv) hroom

/-- Numbering ends in a fault when there are more values to number than numbers. -/
theorem assignIds_overflow (h : g.Reachable) (hf : g.funcs.get? f = some func)
    (hfits : g.Fits 0 (g.unnamedLocals f)) (hmany : UInt32.size ≤ (g.unnamedLocals f).length) :
    g.assignIds f = .error .overflow := by
  rw [assignIds_eq_numberFrom h.linked hf]
  exact numberFrom_overflow h.known (nodup_places h.linked)
    (fun v hv => exists_identOf?_of_mem h.linked hv) hfits (by decide) (by rwa [Nat.zero_add])

theorem Reachable.assignIds (h : g.Reachable) (ha : g.assignIds f = .ok (outcome, g')) :
    g'.Reachable :=
  h.edit (.assignIds f) (by simp [Edit.types]) (by rw [Edit.apply, ha]; rfl)

theorem assignIds_again (h : g.Reachable) (hf : g.funcs.get? f = some func)
    (hroom : (g.unnamedLocals f).length < UInt32.size) (ha : g.assignIds f = .ok (outcome, g'))
    (hn : g.Numbering func.name (g.unnamedLocals f) outcome g') :
    g'.assignIds f = .ok (outcome, g') := by
  have hagain := hn.again (nodup_unnamedLocals h.linked f)
    fun v hv => exists_identOf?_of_mem_unnamedLocals h.linked hv
  obtain ⟨l, rfl⟩ := hn.exists_numbered
  have hlocals : (g.numbered 0 l).unnamedLocals f = g.unnamedLocals f := by
    refine unnamedLocals_mapIdents (fun v ident => ?_) f
    split <;> rfl
  obtain ⟨outcome', g'', ha', hn'⟩ := assignIds_outcome (h.assignIds ha) hf (by rwa [hlocals])
  rw [hlocals] at hn'
  obtain ⟨rfl, rfl⟩ := hagain.unique hn'
  exact ha'

/-- Numbering a function goes through when every number that an unnamed local value has is that of
its position, and then all have theirs. Else it stops at the first value of which this is not so,
with the values before it numbered. Nothing else changes, and a second time nothing does. That the
graph can be reached rules out one fault, a value of a type that the table has not handed out, of
which it could not be said whether it is void. -/
theorem assignIds_numbers (h : g.Reachable) (hf : g.funcs.get? f = some func)
    (hroom : (g.unnamedLocals f).length < UInt32.size) :
    ∃ outcome g', g.assignIds f = .ok (outcome, g') ∧
      (outcome = none ↔
        ∀ k v id, (g.unnamedLocals f)[k]? = some v → g.idOf? v = some id → id = k) ∧
      (outcome = none → g' = g.numbered 0 (g.unnamedLocals f) ∧
        ∀ k v, (g.unnamedLocals f)[k]? = some v → g'.idOf? v = some k) ∧
      (∀ e, outcome = some e → e.func = func.name ∧
        (∃ v, (g.unnamedLocals f)[e.expected]? = some v ∧ g.idOf? v = some e.found) ∧
        e.found ≠ e.expected ∧
        (∀ k v id, k < e.expected → (g.unnamedLocals f)[k]? = some v → g.idOf? v = some id →
          id = k) ∧
        g' = g.numbered 0 ((g.unnamedLocals f).take e.expected)) ∧
      (g.unnamedLocals f).Nodup ∧
      g'.assignIds f = .ok (outcome, g') := by
  obtain ⟨outcome, g', ha, hn⟩ := assignIds_outcome h hf hroom
  have hnd := nodup_unnamedLocals h.linked f
  have hthere (v : Value) (hv : v ∈ g.unnamedLocals f) : ∃ ident, g.identOf? v = some ident :=
    exists_identOf?_of_mem_unnamedLocals h.linked hv
  refine ⟨outcome, g', ha, ?_, ?_, ?_, hnd, assignIds_again h hf hroom ha hn⟩
  · rw [hn.eq_none_iff]
    simp [Fits]
  · rintro rfl
    exact ⟨hn.eq_numbered, fun k v hk => hn.idOf?_eq hnd hthere hk⟩
  · rintro e rfl
    cases hn with
    | @stopped k v found hk hid hne hfits =>
      refine ⟨rfl, ⟨v, hk, hid⟩, hne, fun j w id hj hw hid => ?_, rfl⟩
      have hpos := hfits j w id (by rw [List.getElem?_take, if_pos hj, hw]) hid
      omega

/-- In the sample, an instruction keeps the number 3 when the one before it is taken out. -/
theorem sampleGraph_assignIds :
    (∃ func, sampleGraph.funcs.get? ⟨0⟩ = some func) ∧
      (sampleGraph.unnamedLocals ⟨0⟩).length < UInt32.size ∧
      sampleGraph.unnamedLocals ⟨0⟩ = [.param ⟨0⟩, .block ⟨0⟩, .inst ⟨1⟩] ∧
      ∃ g', sampleGraph.assignIds ⟨0⟩ = .ok (some ⟨"f", 2, 3⟩, g') ∧
        g' = sampleGraph.numbered 0 [.param ⟨0⟩, .block ⟨0⟩] ∧
        g'.assignIds ⟨0⟩ = .ok (some ⟨"f", 2, 3⟩, g') := by
  obtain ⟨outcome, g', ha, -, -, hstop, -, hagain⟩ :=
    assignIds_numbers (f := ⟨0⟩) reachable_sampleGraph rfl (by decide)
  have hrun : sampleGraph.assignIds ⟨0⟩ = .ok (some ⟨"f", 2, 3⟩, _) := rfl
  obtain rfl : some ⟨"f", 2, 3⟩ = outcome :=
    congrArg Prod.fst (Except.ok.inj (hrun.symm.trans ha))
  obtain ⟨-, -, -, -, hg⟩ := hstop _ rfl
  exact ⟨⟨_, rfl⟩, by decide, rfl, g', ha, hg, hagain⟩

end Assign

end IrGraph.Graph
