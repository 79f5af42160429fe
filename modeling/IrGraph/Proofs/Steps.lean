import Mathlib.Data.List.Forall2

/-! Sequences of steps that can fail. -/

namespace IrGraph

theorem bind_eq_ok_iff {ε α β : Type} {x : Except ε α} {f : α → Except ε β} {b : β} :
    x >>= f = .ok b ↔ ∃ a, x = .ok a ∧ f a = .ok b := by
  cases x with
  | error e => simp [bind, Except.bind]
  | ok a => simp [bind, Except.bind]

theorem ok_bind {ε α β : Type} (a : α) (f : α → Except ε β) : Except.ok a >>= f = f a :=
  rfl

theorem pure_eq_ok_iff {ε α : Type} {a b : α} : (pure a : Except ε α) = .ok b ↔ a = b := by
  simp [pure, Except.pure]

theorem bind_eq_error_iff {ε α β : Type} {x : Except ε α} {f : α → Except ε β} {e : ε} :
    x >>= f = .error e ↔ x = .error e ∨ ∃ a, x = .ok a ∧ f a = .error e := by
  cases x <;> simp [bind, Except.bind]

theorem pure_ne_error {ε α : Type} {e : ε} {a : α} : (pure a : Except ε α) ≠ .error e := by
  intro h
  cases h

/-- A sequence of steps goes through when each of them does. -/
theorem exists_bind_eq_ok_iff {ε α β : Type} {x : Except ε α} {f : α → Except ε β} :
    (∃ b, x >>= f = .ok b) ↔ ∃ a, x = .ok a ∧ ∃ b, f a = .ok b := by
  simp only [bind_eq_ok_iff, exists_comm (α := β), exists_and_left]

theorem exists_pure_eq_ok {ε α : Type} (a : α) : ∃ b, (pure a : Except ε α) = .ok b :=
  ⟨a, rfl⟩

theorem throw_ne_ok {ε α : Type} {e : ε} {a : α} : (throw e : Except ε α) ≠ .ok a := by
  intro h
  cases h

theorem bind_throw_ne_ok {ε α β : Type} {x : Except ε α} {e : α → ε} {b : β} :
    (do throw (e (← x)) : Except ε β) ≠ .ok b := by
  cases x <;> exact throw_ne_ok

theorem return_snd_eq_ok_iff {ε α β : Type} {x : Except ε (α × β)} {b : β} :
    (do return (← x).2) = Except.ok b ↔ ∃ a, x = .ok (a, b) := by
  simp only [bind_eq_ok_iff, pure_eq_ok_iff, Prod.exists, exists_eq_right]

theorem mapM_map_eq_ok {ε α β γ : Type} {step : β → Except ε γ} {f : α → β} {result : α → γ}
    {l : List α} (h : ∀ a ∈ l, step (f a) = .ok (result a)) :
    (l.map f).mapM step = .ok (l.map result) := by
  induction l with
  | nil => rfl
  | cons a l ih =>
    rw [List.map_cons, List.mapM_cons, h a List.mem_cons_self,
      ih fun b hb => h b (List.mem_cons_of_mem a hb)]
    rfl

theorem mapM_map_eq_self {ε α β : Type} {step : β → Except ε α} {f : α → β} {l : List α}
    (h : ∀ a ∈ l, step (f a) = .ok a) : (l.map f).mapM step = .ok l := by
  have hid := mapM_map_eq_ok h
  rwa [List.map_id'] at hid

theorem exists_of_mem_mapM {ε α β : Type} {step : α → Except ε β} {l : List α} {l' : List β} {b : β}
    (h : l.mapM step = .ok l') (hb : b ∈ l') : ∃ a ∈ l, step a = .ok b := by
  induction l generalizing l' with
  | nil =>
    rw [List.mapM_nil, pure_eq_ok_iff] at h
    simp [← h] at hb
  | cons a l ih =>
    simp only [List.mapM_cons, bind_eq_ok_iff, pure_eq_ok_iff] at h
    obtain ⟨c, hc, rest, hrest, rfl⟩ := h
    rcases List.mem_cons.mp hb with rfl | hb
    · exact ⟨a, List.mem_cons_self, hc⟩
    · obtain ⟨x, hx, hstep⟩ := ih hrest hb
      exact ⟨x, List.mem_cons_of_mem a hx, hstep⟩

theorem exists_first_of_mapM_eq_error {ε α β : Type} {step : α → Except ε β} {l : List α} {e : ε}
    (h : l.mapM step = .error e) :
    ∃ before a after, l = before ++ a :: after ∧ (∀ x ∈ before, ∃ b, step x = .ok b) ∧
      step a = .error e := by
  induction l with
  | nil => cases h
  | cons a l ih =>
    rw [List.mapM_cons] at h
    cases ha : step a with
    | error _ =>
      rw [ha] at h
      cases h
      exact ⟨[], a, l, rfl, by simp, ha⟩
    | ok b =>
      have hl : l.mapM step = .error e := by
        rw [ha] at h
        cases hl : l.mapM step with
        | error _ =>
          rw [hl] at h
          cases h
          rfl
        | ok rest =>
          rw [hl] at h
          cases h
      obtain ⟨before, x, after, rfl, hbefore, hx⟩ := ih hl
      exact ⟨a :: before, x, after, rfl, List.forall_mem_cons.mpr ⟨⟨b, ha⟩, hbefore⟩, hx⟩

theorem mapM_mono {ε α β : Type} {step step' : α → Except ε β} {l : List α} {l' : List β}
    (hstep : ∀ a ∈ l, ∀ b, step a = .ok b → step' a = .ok b) (h : l.mapM step = .ok l') :
    l.mapM step' = .ok l' := by
  induction l generalizing l' with
  | nil => exact h
  | cons a l ih =>
    simp only [List.mapM_cons, bind_eq_ok_iff] at h ⊢
    obtain ⟨b, hb, rest, hrest, h⟩ := h
    exact ⟨b, hstep a List.mem_cons_self b hb, rest,
      ih (fun x hx => hstep x (List.mem_cons_of_mem a hx)) hrest, h⟩

theorem exists_forall₂_iff {α β : Type} {R : α → β → Prop} {l : List α} :
    (∃ l', List.Forall₂ R l l') ↔ ∀ a ∈ l, ∃ b, R a b := by
  induction l with
  | nil => simp
  | cons a l ih =>
    rw [List.forall_mem_cons, ← ih]
    constructor
    · rintro ⟨_, h⟩
      cases h with
      | cons ha hl => exact ⟨⟨_, ha⟩, _, hl⟩
    · rintro ⟨⟨b, ha⟩, l', hl⟩
      exact ⟨b :: l', .cons ha hl⟩

theorem mapM_eq_ok_iff {ε α β : Type} {step : α → Except ε β} {l : List α} {l' : List β} :
    l.mapM step = .ok l' ↔ List.Forall₂ (fun a b => step a = .ok b) l l' := by
  induction l generalizing l' with
  | nil => rw [List.mapM_nil, pure_eq_ok_iff, List.forall₂_nil_left_iff, eq_comm]
  | cons a l ih =>
    simp only [List.mapM_cons, bind_eq_ok_iff, pure_eq_ok_iff, ih, List.forall₂_cons_left_iff]
    constructor
    · rintro ⟨b, hb, rest, hrest, rfl⟩
      exact ⟨b, rest, hb, hrest, rfl⟩
    · rintro ⟨b, rest, hb, hrest, rfl⟩
      exact ⟨b, hb, rest, hrest, rfl⟩

theorem length_of_mapM {ε α β : Type} {step : α → Except ε β} {l : List α} {l' : List β}
    (h : l.mapM step = .ok l') : l'.length = l.length :=
  (mapM_eq_ok_iff.mp h).length_eq.symm

theorem exists_mapM_eq_ok_iff {ε α β : Type} {step : α → Except ε β} {l : List α} :
    (∃ l', l.mapM step = .ok l') ↔ ∀ a ∈ l, ∃ b, step a = .ok b := by
  simp only [mapM_eq_ok_iff, exists_forall₂_iff]

/-- What every step of a fold keeps, the fold keeps. -/
theorem foldlM_induction {ε α β : Type} {step : β → α → Except ε β} {P : β → Prop} {l : List α}
    {b b' : β} (hstep : ∀ a ∈ l, ∀ b b', P b → step b a = .ok b' → P b') (hb : P b)
    (h : l.foldlM step b = .ok b') : P b' := by
  induction l generalizing b with
  | nil =>
    rw [List.foldlM_nil, pure_eq_ok_iff] at h
    exact h ▸ hb
  | cons a l ih =>
    rw [List.foldlM_cons, bind_eq_ok_iff] at h
    obtain ⟨c, hc, h⟩ := h
    have hstep' : ∀ x ∈ l, ∀ b b', P b → step b x = .ok b' → P b' :=
      fun x hx => hstep x (List.mem_cons_of_mem a hx)
    exact ih hstep' (hstep a List.mem_cons_self b c hb hc) h

end IrGraph
