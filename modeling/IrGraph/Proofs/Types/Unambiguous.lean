import IrGraph.Proofs.Types.Interned
import IrGraph.Proofs.Types.Spelling
import IrGraph.Proofs.Types.Text

/-! No two types have one text. Only what stands behind a type tells whether it is called, so of two
types that begin one text one may be the other called some times; at the end of a text there is no
room for that. -/

namespace IrGraph

namespace TypeTable

open IrType

variable {t : TypeTable} {r r' : TypeRef} {u v x y : List Char} {depth depth' : Nat}

/-- The text of `r` with `depth` levels of components at most, in characters. -/
def SpelledWithin (t : TypeTable) (depth : Nat) (r : TypeRef) (u : List Char) : Prop :=
  ∃ s, t.textWithin depth r = .ok s ∧ s.toList = u

theorem mapM_spelled {l : List TypeRef} {texts : List String}
    (h : l.mapM (t.textWithin depth) = .ok texts) :
    List.Forall₂ (t.SpelledWithin depth) l (texts.map String.toList) := by
  rw [mapM_eq_ok_iff] at h
  exact List.forall₂_map_right_iff.mpr (h.imp fun _ s hs => ⟨s, hs, rfl⟩)

theorem SpelledWithin.exists_spelled (h : t.SpelledWithin (depth + 1) r u) :
    ∃ type, t.get? r = some type ∧ type.Spelled (t.SpelledWithin depth) u := by
  obtain ⟨s, hs, rfl⟩ := h
  rw [textWithin, bind_eq_ok_iff] at hs
  simp only [get_eq_ok_iff] at hs
  obtain ⟨type, htype, hs⟩ := hs
  refine ⟨type, htype, ?_⟩
  have hplain {us : List (List Char)} (hfunc : ¬type.IsFunc)
      (h : List.Forall₂ (t.SpelledWithin depth) type.components us)
      (hs : s.toList = type.word.toList ++ (type.opening.toList ++
        (spread us ++ type.closing.toList))) : type.Spelled (t.SpelledWithin depth) s.toList :=
    hs ▸ .plain hfunc h
  cases type with
  | vector length elem scalable =>
    simp only [bind_eq_ok_iff, pure_eq_ok_iff] at hs
    obtain ⟨inner, hinner, rfl⟩ := hs
    refine hplain id (.cons ⟨inner, hinner, rfl⟩ .nil) ?_
    cases scalable <;> simp [word, opening, closing, spread]
  | array length elem =>
    simp only [bind_eq_ok_iff, pure_eq_ok_iff] at hs
    obtain ⟨inner, hinner, rfl⟩ := hs
    refine hplain id (.cons ⟨inner, hinner, rfl⟩ .nil) ?_
    simp [word, opening, closing, spread]
  | struct fields packed =>
    simp only [bind_eq_ok_iff, pure_eq_ok_iff] at hs
    obtain ⟨inner, hinner, rfl⟩ := hs
    refine hplain id (mapM_spelled hinner) ?_
    cases packed <;> simp [word, opening, closing, spread, String.toList_intercalate]
  | func result params variadic =>
    simp only [bind_eq_ok_iff, pure_eq_ok_iff] at hs
    obtain ⟨head, hhead, inner, hinner, rfl⟩ := hs
    have hlast : List.Forall₂ (Argument (t.SpelledWithin depth))
        (if variadic then [none] else []) (if variadic then [['.', '.', '.']] else []) := by
      cases variadic
      · exact .nil
      · exact .cons .more .nil
    have hgiven := (mapM_spelled hinner).imp fun _ _ h => Argument.given h
    have hargs : List.Forall₂ (Argument (t.SpelledWithin depth)) (arguments params variadic) _ :=
      List.rel_append (List.forall₂_map_left_iff.mpr hgiven) hlast
    have hchars := Spelled.func ⟨head, hhead, rfl⟩ hargs
    cases variadic <;> simpa [spread, String.toList_intercalate] using hchars
  | pointer addrSpace =>
    obtain rfl := pure_eq_ok_iff.mp hs
    refine hplain id .nil ?_
    by_cases hzero : addrSpace = 0 <;> simp [word, opening, closing, spread, hzero]
  | _ =>
    obtain rfl := pure_eq_ok_iff.mp hs
    exact hplain id .nil (by simp [word, opening, closing, spread])

theorem not_spelledWithin_zero : ¬t.SpelledWithin 0 r u := by
  rintro ⟨s, hs, -⟩
  cases hs

theorem startsWord_spelledWithin (t : TypeTable) (depth : Nat) :
    StartsWord (t.SpelledWithin depth) := by
  induction depth with
  | zero => exact fun r u h => absurd h not_spelledWithin_zero
  | succ depth ih =>
    intro r u h
    obtain ⟨type, -, htype⟩ := h.exists_spelled
    exact Spelled.startsWord ih type u htype

/-- A type and what stands behind it: parameters for it as a function, and what stands behind
that. -/
def Calls (t : TypeTable) (p q : TypeRef × List Char) : Prop :=
  ∃ depth params variadic us, t.get? q.1 = some (.func p.1 params variadic) ∧
    List.Forall₂ (Argument (t.SpelledWithin depth)) (arguments params variadic) us ∧
    p.2 = ' ' :: '(' :: (spread us ++ ')' :: q.2)

section Unique

variable {p q q' : TypeRef × List Char}

theorem Calls.exists_call (h : t.Calls p q) : ∃ x, p.2 = ' ' :: '(' :: x := by
  obtain ⟨_, _, _, us, -, -, hp⟩ := h
  exact ⟨_, hp⟩

theorem Calls.isFunc {type : IrType} (h : t.Calls p q) (hq : t.get? q.1 = some type) :
    type.IsFunc := by
  obtain ⟨_, _, _, _, hget, -⟩ := h
  rw [hq] at hget
  cases hget
  trivial

theorem eq_of_stops (hx : Stops x) (h : Relation.ReflTransGen t.Calls (r, x) q) : q = (r, x) := by
  rcases h.cases_head with hsame | ⟨p, hp, -⟩
  · exact hsame.symm
  · obtain ⟨z, hz⟩ := hp.exists_call
    exact absurd hz (hx.ne_call z)

/-- What is called with the same text behind it is the same. -/
theorem calls_unique (hinj : ∀ r s type, t.get? r = some type → t.get? s = some type → r = s)
    (hsep : ∀ depth', Separable (t.SpelledWithin depth) (t.SpelledWithin depth'))
    {params : List TypeRef} {variadic : Bool} {us : List (List Char)}
    (hq : t.get? q.1 = some (.func p.1 params variadic))
    (h : List.Forall₂ (Argument (t.SpelledWithin depth)) (arguments params variadic) us)
    (hp : p.2 = ' ' :: '(' :: (spread us ++ ')' :: q.2)) (hq' : t.Calls p q') : q = q' := by
  obtain ⟨depth', params', variadic', us', hget, h', hp'⟩ := hq'
  have hstarts (depth : Nat) : StartsWord (t.SpelledWithin depth) := startsWord_spelledWithin t depth
  have heq : spread us ++ ')' :: q.2 = spread us' ++ ')' :: q'.2 := by
    rw [hp'] at hp
    exact (List.cons.inj (List.cons.inj hp).2).2.symm
  obtain ⟨hsame, hend⟩ := (Argument.separable (hsep depth') (hstarts _) (hstarts _)).spread
    (Argument.starts (hstarts _)) (Argument.starts (hstarts _)) h h' (.round _) (.round _) heq
  obtain ⟨rfl, rfl⟩ := arguments_inj hsame
  exact Prod.ext (hinj _ _ _ hq hget) (List.cons.inj hend).2

/-- Of two types that begin one text, one is the other called some times. -/
theorem calls_of_append_eq
    (hinj : ∀ r s type, t.get? r = some type → t.get? s = some type → r = s)
    (h : t.SpelledWithin depth r u) (h' : t.SpelledWithin depth' r' v) (hx : Follows x)
    (hy : Follows y) (heq : u ++ x = v ++ y) :
    Relation.ReflTransGen t.Calls (r, x) (r', y) ∨
      Relation.ReflTransGen t.Calls (r', y) (r, x) := by
  induction depth generalizing depth' r r' u v x y with
  | zero => exact absurd h not_spelledWithin_zero
  | succ depth ih =>
    have hsep (depth' : Nat) : Separable (t.SpelledWithin depth) (t.SpelledWithin depth') := by
      intro a b u v x y ha hb hx hy heq
      rcases ih ha hb (.stop hx) (.stop hy) heq with hcalls | hcalls
      · exact (Prod.mk.inj (eq_of_stops hx hcalls)).imp Eq.symm Eq.symm
      · exact Prod.mk.inj (eq_of_stops hy hcalls)
    obtain ⟨type, htype, h⟩ := h.exists_spelled
    cases h with
    | func hhead hargs =>
      have hstep := (⟨depth, _, _, _, htype, hargs, rfl⟩ : t.Calls (_, _) (r, x))
      rcases ih hhead h' (.call _) hy (by simpa using heq) with hcalls | hcalls
      · rcases hcalls.cases_head with hsame | ⟨p, hp, hrest⟩
        · exact .inr (hsame ▸ .single hstep)
        · obtain rfl := calls_unique (q := (r, x)) hinj hsep htype hargs rfl hp
          exact .inl hrest
      · exact .inr (hcalls.tail hstep)
    | plain hfunc hcomponents =>
      -- The right type may be called more often than the left one, which is not called.
      induction depth' generalizing r' v y with
      | zero => exact absurd h' not_spelledWithin_zero
      | succ depth' ih' =>
        obtain ⟨type', htype', h'⟩ := h'.exists_spelled
        cases h' with
        | func hhead' hargs' =>
          have hstep := (⟨depth', _, _, _, htype', hargs', rfl⟩ : t.Calls (_, _) (r', y))
          rcases ih' hhead' (.call _) (by simpa using heq) with hcalls | hcalls
          · exact .inl (hcalls.tail hstep)
          · rcases hcalls.cases_tail with hsame | ⟨p, -, hp⟩
            · exact .inl (hsame ▸ .single hstep)
            · exact absurd (hp.isFunc htype) hfunc
        | plain hfunc' hcomponents' =>
          obtain ⟨rfl, rfl⟩ := eq_of_plain (hsep depth') (startsWord_spelledWithin t depth)
            (startsWord_spelledWithin t depth') hfunc hfunc' hcomponents hcomponents' hx hy
            (by simpa using heq)
          obtain rfl := hinj _ _ _ htype htype'
          exact .inl .refl

theorem Interned.eq_of_textWithin_eq {s : String} (h : t.Interned)
    (hr : t.textWithin depth r = .ok s) (hr' : t.textWithin depth' r' = .ok s) : r = r' := by
  have hend : Follows [] := .stop .nil
  rcases calls_of_append_eq (fun _ _ _ => h.eq_of_get?) ⟨s, hr, rfl⟩ ⟨s, hr', rfl⟩ hend hend rfl
    with hcalls | hcalls
  · exact (Prod.mk.inj (eq_of_stops .nil hcalls)).1.symm
  · exact (Prod.mk.inj (eq_of_stops .nil hcalls)).1

end Unique

section Main

/-- In a table that started empty and in which components come before the types they are part of,
every type has a text, which printing gets to in as many levels as there are types up to it; and no
two types have one text. -/
theorem text_unambiguous (h : Steps .empty t) (hordered : t.Ordered) :
    (∀ r, t.Has r → ∃ s, t.text r = .ok s ∧
      ∀ depth, r.index < depth → t.textWithin depth r = .ok s) ∧
    ∀ r r' s, t.text r = .ok s → t.text r' = .ok s → r = r' := by
  refine ⟨fun r hr => ?_, fun r r' s hr hr' => (Interned.of_steps h).eq_of_textWithin_eq hr hr'⟩
  obtain ⟨s, hs⟩ := hordered.exists_textWithin hr
  exact ⟨s, hs _ (Nat.lt_succ_of_lt hr), hs⟩

/-- Functions that give functions, and brackets that share their first character. -/
def calledTypes : List IrType :=
  [.void, .func ⟨0⟩ [] false, .func ⟨1⟩ [] false, .func ⟨0⟩ [⟨1⟩] false, .func ⟨1⟩ [⟨2⟩, ⟨1⟩] true,
    .struct [] true, .struct [⟨5⟩] false, .pointer 0, .pointer 3, .vector 4 ⟨8⟩ true,
    .vector 4 ⟨8⟩ false, .func ⟨9⟩ [⟨10⟩] true]

theorem calledTypes_text :
    (TypeTable.empty.internAll calledTypes).text ⟨11⟩ =
      .ok "<vscale x 4 x ptr addrspace(3)> (<4 x ptr addrspace(3)>, ...)" ∧
    (∀ r, (TypeTable.empty.internAll calledTypes).text r = .ok "void () ()" → r = ⟨2⟩) ∧
    (∀ r, (TypeTable.empty.internAll calledTypes).text r = .ok "void (void ())" → r = ⟨3⟩) ∧
    ∃ s, (TypeTable.empty.internAll calledTypes).text ⟨4⟩ = .ok s ∧
      (TypeTable.empty.internAll calledTypes).textWithin 5 ⟨4⟩ = .ok s := by
  have hsteps : Steps .empty (TypeTable.empty.internAll calledTypes) := steps_internAll _ _
  obtain ⟨hexists, hunique⟩ := text_unambiguous hsteps (by decide)
  refine ⟨rfl, fun r hr => hunique r ⟨2⟩ _ hr rfl, fun r hr => hunique r ⟨3⟩ _ hr rfl, ?_⟩
  obtain ⟨s, hs, hwithin⟩ := hexists ⟨4⟩ (by decide)
  exact ⟨s, hs, hwithin 5 (by decide)⟩

end Main

end TypeTable

end IrGraph
