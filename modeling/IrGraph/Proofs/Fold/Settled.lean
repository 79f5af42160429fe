import IrGraph.Proofs.Edit.Constants
import IrGraph.Proofs.Fold.Tree
import IrGraph.Proofs.Types.Known

/-! Folding any constant. It ends with the constant itself or with a new literal of the same type,
and adds nothing but literals to the graph. What a constant is folded to does not depend on the
literals that were added, so folding again changes nothing. -/

namespace IrGraph

theorem TypeTable.Has.exists_intBits {t : TypeTable} {r : TypeRef} (h : t.Has r) :
    ∃ bits, t.intBits? r = .ok bits := by
  have hget : t.get? r = some t.entries[r.index] := Array.getElem?_eq_getElem h
  rw [intBits?, get_eq_ok_iff.mpr hget]
  simp only [bind, Except.bind]
  split <;> exact ⟨_, rfl⟩

namespace Graph

/-- `g'` is `g` with some literals added after the constants that were there. -/
structure AddsLiterals (g g' : Graph) : Prop where
  rest : g' = { g with consts := g'.consts }
  added : ∃ new : List StoredConstant, g'.consts.items.toList = g.consts.items.toList ++ new ∧
    ∀ x ∈ new, x.data.IsLiteralOf x.type

variable {g g' g'' : Graph} {c c' x y : ConstRef} {op : BinaryOp} {data a b : Constant}
  {stored : StoredConstant} {type : TypeRef} {depth : Nat}

namespace AddsLiterals

theorem refl (g : Graph) : AddsLiterals g g :=
  ⟨rfl, [], by simp, by simp⟩

theorem trans (h : AddsLiterals g g') (h' : AddsLiterals g' g'') : AddsLiterals g g'' := by
  obtain ⟨hrest, new, hitems, hnew⟩ := h
  obtain ⟨hrest', new', hitems', hnew'⟩ := h'
  refine ⟨by rw [hrest', hrest], new ++ new', by rw [hitems', hitems, List.append_assoc], ?_⟩
  intro x hx
  exact (List.mem_append.mp hx).elim (hnew x) (hnew' x)

theorem addsConsts (h : AddsLiterals g g') : AddsConsts g g' where
  rest := h.rest
  kept c stored hc := by
    obtain ⟨-, new, hitems, -⟩ := h
    rw [Arena.get?, ← Array.getElem?_toList] at hc ⊢
    obtain ⟨hlt, -⟩ := List.getElem?_eq_some_iff.mp hc
    rw [hitems, List.getElem?_append_left hlt, hc]

theorem size_le (h : AddsLiterals g g') : g.consts.size ≤ g'.consts.size := by
  obtain ⟨-, new, hitems, -⟩ := h
  rw [Arena.size, Arena.size, ← Array.length_toList, ← Array.length_toList, hitems,
    List.length_append]
  exact Nat.le_add_right _ _

end AddsLiterals

theorem addConst_literal (g : Graph) (hdata : data.IsLiteralOf type) :
    ∃ g', g.addConst data = .ok (g.consts.next, g') ∧ AddsLiterals g g' ∧
      g'.consts.get? g.consts.next = some ⟨data, type⟩ := by
  refine ⟨{ g with consts := g.consts.push ⟨data, type⟩ }, ?_, ⟨rfl, [⟨data, type⟩], ?_, ?_⟩, ?_⟩
  · rw [addConst, constType_of_isLiteralOf hdata]
    rfl
  · simp [Arena.push]
  · simpa using hdata
  · simp [Arena.get?_push]

section Literals

theorem foldLiterals_congr (h : g'.types = g.types) :
    g'.foldLiterals op a b = g.foldLiterals op a b := by
  simp only [foldLiterals, h]

/-- Two literals make a literal of the first one's type, or nothing. -/
theorem exists_foldLiterals (op : BinaryOp) (b : Constant)
    (ha : ∀ type, a.IsLiteralOf type → g.types.Has type) :
    ∃ folded, g.foldLiterals op a b = .ok folded ∧
      ∀ literal ∈ folded, ∃ type, a.IsLiteralOf type ∧ literal.IsLiteralOf type := by
  unfold foldLiterals
  split
  · rename_i type v other w
    obtain ⟨bits, hbits⟩ := (ha type rfl).exists_intBits
    rw [hbits]
    refine ⟨_, rfl, fun literal hliteral => ⟨type, rfl, ?_⟩⟩
    obtain ⟨value, -, rfl⟩ := Option.map_eq_some_iff.mp hliteral
    simp
  · rename_i type v other w
    refine ⟨_, rfl, fun literal hliteral => ⟨type, rfl, ?_⟩⟩
    obtain ⟨value, -, rfl⟩ := Option.map_eq_some_iff.mp hliteral
    simp
  · exact ⟨none, rfl, fun literal hnone => absurd hnone (Option.not_mem_none literal)⟩

end Literals

/-- In `g` with any literals added, `c` is folded to a constant with this data and the type of `c`:
to itself, or to a new literal. -/
structure FoldsTo (g : Graph) (c : ConstRef) (x : StoredConstant) : Prop where
  typed : ∀ type, x.data.IsLiteralOf type → type = x.type
  folds : ∀ h depth, AddsLiterals g h → c.index < depth →
    ∃ c' h', h.simplifyWithin depth c = .ok (c', h') ∧ AddsLiterals h h' ∧
      h'.consts.get? c' = some x ∧
      (c' = c ∨ h.consts.size ≤ c'.index ∧ x.data.IsLiteralOf x.type)

namespace FoldsTo

theorem leaf (htyped : ConstsTyped g.consts) (hc : g.consts.get? c = some stored)
    (hleaf : ∀ op x y, stored.data ≠ .expr (.binary op (.const x) (.const y))) :
    FoldsTo g c stored where
  typed type hlit := (htyped.literal c stored type hc hlit).symm
  folds h depth hadds hdepth := by
    obtain ⟨depth, rfl⟩ : ∃ d, depth = d + 1 := ⟨depth - 1, by omega⟩
    have hstill := hadds.addsConsts.kept c stored hc
    exact ⟨c, h, simplifyWithin_leaf hstill hleaf, .refl h, hstill, .inl rfl⟩

/-- What becomes of an operator is decided by what its operands are folded to. -/
theorem simplifyWithin_operator {sx sy : StoredConstant} {folded : Option Constant}
    (hc : g.consts.get? c = some ⟨.expr (.binary op (.const x) (.const y)), type⟩)
    (hxc : x.index < c.index) (hyc : y.index < c.index) (hx : FoldsTo g x sx)
    (hy : FoldsTo g y sy) (hfold : g.foldLiterals op sx.data sy.data = .ok folded) {h : Graph}
    (hadds : AddsLiterals g h) (hdepth : c.index < depth) :
    ∃ h', AddsLiterals h h' ∧
      h.simplifyWithin depth c = folded.elim (.ok (c, h')) h'.addConst := by
  obtain ⟨depth, rfl⟩ : ∃ d, depth = d + 1 := ⟨depth - 1, by omega⟩
  obtain ⟨x', h₁, hx', hadds₁, hgetx, -⟩ := hx.folds h depth hadds (by omega)
  obtain ⟨y', h₂, hy', hadds₂, hgety, -⟩ := hy.folds h₁ depth (hadds.trans hadds₁) (by omega)
  have hall : AddsLiterals h h₂ := hadds₁.trans hadds₂
  refine ⟨h₂, hall, ?_⟩
  rw [simplifyWithin_binary (hadds.addsConsts.kept c _ hc) rfl hx' hy']
  refine foldOperands_eq (hadds₂.addsConsts.kept x' sx hgetx) hgety ?_
  rw [foldLiterals_congr (hadds.trans hall).addsConsts.types, hfold]

/-- An operator is folded to what it makes of its folded operands, or not at all. -/
theorem operator {sy : StoredConstant} (hknown : g.types.Has type)
    (hc : g.consts.get? c = some ⟨.expr (.binary op (.const x) (.const y)), type⟩)
    (hxc : x.index < c.index) (hyc : y.index < c.index) (hx : FoldsTo g x ⟨a, type⟩)
    (hy : FoldsTo g y sy) :
    ∃ folded, g.foldLiterals op a sy.data = .ok folded ∧
      FoldsTo g c ⟨folded.getD (.expr (.binary op (.const x) (.const y))), type⟩ := by
  have ha : ∀ own, a.IsLiteralOf own → g.types.Has own := by
    intro own hlit
    rwa [hx.typed own hlit]
  obtain ⟨folded, hfold, hliteral⟩ := exists_foldLiterals op sy.data ha
  refine ⟨folded, hfold, ?_⟩
  cases folded with
  | none =>
    refine ⟨fun own hlit => hlit.elim, fun h depth hadds hdepth => ?_⟩
    obtain ⟨h', hadds', hsimp⟩ := simplifyWithin_operator hc hxc hyc hx hy hfold hadds hdepth
    have hstill := (hadds.trans hadds').addsConsts.kept c _ hc
    exact ⟨c, h', hsimp, hadds', hstill, .inl rfl⟩
  | some literal =>
    obtain ⟨own, hown, hlit⟩ := hliteral literal rfl
    obtain rfl := hx.typed own hown
    refine ⟨fun other hother => hother.unique hlit, fun h depth hadds hdepth => ?_⟩
    obtain ⟨h', hadds', hsimp⟩ := simplifyWithin_operator hc hxc hyc hx hy hfold hadds hdepth
    obtain ⟨h'', hadd, hadds'', hget⟩ := h'.addConst_literal hlit
    exact ⟨_, h'', hsimp.trans hadd, hadds'.trans hadds'', hget, .inr ⟨hadds'.size_le, hlit⟩⟩

/-- The constant that comes out is folded to itself. -/
theorem simplify_again {x : StoredConstant} (hx : FoldsTo g c x) (hadds : AddsLiterals g g')
    (hc : c.index < g.consts.size) (hc' : g'.consts.get? c' = some x)
    (hend : c' = c ∨ x.data.IsLiteralOf x.type) :
    ∃ g'', g'.simplify c' = .ok (c', g'') ∧ AddsLiterals g' g'' := by
  by_cases hlit : x.data.IsLiteralOf x.type
  · refine ⟨g', simplifyWithin_leaf hc' ?_, .refl g'⟩
    intro op x y hdata
    rw [hdata] at hlit
    exact hlit
  · obtain rfl := hend.resolve_right hlit
    have hdepth : c'.index < g'.consts.size + 1 := Nat.lt_succ_of_lt (hc.trans_le hadds.size_le)
    obtain ⟨c'', g'', hsimp, hadds', -, hend'⟩ := hx.folds g' _ hadds hdepth
    obtain rfl := hend'.resolve_right fun hnew => hlit hnew.2
    exact ⟨g'', hsimp, hadds'⟩

end FoldsTo

section Main

/-- What a constant is once it has been folded. -/
def SimplifiesTo (g : Graph) (c : ConstRef) (x : StoredConstant) : Prop :=
  ∃ c' g', g.simplify c = .ok (c', g') ∧ g'.consts.get? c' = some x

theorem FoldsTo.simplifiesTo {x : StoredConstant} (hx : FoldsTo g c x)
    (hc : c.index < g.consts.size) : g.SimplifiesTo c x := by
  obtain ⟨c', g', hsimp, -, hget, -⟩ := hx.folds g _ (.refl g) (Nat.lt_succ_of_lt hc)
  exact ⟨c', g', hsimp, hget⟩

/-- Each constant is folded to something of its type, however much has been folded before; an
operator to what it makes of what its operands are folded to. -/
theorem exists_foldsTo (hknown : g.Known) (htyped : ConstsTyped g.consts) (hback : g.ConstsInOrder)
    (hc : g.consts.get? c = some ⟨data, type⟩) :
    ∃ folded, FoldsTo g c ⟨folded, type⟩ ∧
      ∀ op x y, data = .expr (.binary op (.const x) (.const y)) →
        ∃ sx sy literal, g.SimplifiesTo x sx ∧ g.SimplifiesTo y sy ∧
          g.foldLiterals op sx.data sy.data = .ok literal ∧ folded = literal.getD data := by
  induction hn : c.index using Nat.strongRecOn generalizing c data type with
  | ind n ih =>
    subst hn
    by_cases hleaf : ∀ op x y, data ≠ .expr (.binary op (.const x) (.const y))
    · exact ⟨data, .leaf htyped hc hleaf, fun op x y hdata => absurd hdata (hleaf op x y)⟩
    push Not at hleaf
    obtain ⟨op, x, y, rfl⟩ := hleaf
    have hxc : x.index < c.index := hback c _ hc x (by simp [Constant.parts, ConstExpr.parts])
    have hyc : y.index < c.index := hback c _ hc y (by simp [Constant.parts, ConstExpr.parts])
    have hlt : c.index < g.consts.size := Arena.index_lt_of_get? hc
    obtain ⟨sx, hx, rfl⟩ := htyped.operator c op x (.const y) type hc hxc
    obtain ⟨sy, hy⟩ := Arena.exists_get?_of_lt (hyc.trans hlt)
    obtain ⟨a, ha, -⟩ := ih x.index hxc hx rfl
    obtain ⟨b, hb, -⟩ := ih y.index hyc hy rfl
    have hhas : g.types.Has sx.type :=
      hknown.named (.const c) sx.type (by simp [typesOf, Arena.members_of_get? hc])
    obtain ⟨literal, hliteral, hfolds⟩ := FoldsTo.operator hhas hc hxc hyc ha hb
    refine ⟨_, hfolds, fun op' x' y' hdata => ?_⟩
    cases hdata
    exact ⟨_, _, literal, ha.simplifiesTo (hxc.trans hlt), hb.simplifiesTo (hyc.trans hlt), hliteral,
      rfl⟩

/-- When constants are made only of those before them, folding one always ends: with itself or with
a new literal, of the same type, and an operator with what it makes of its folded operands if that
is a literal. Nothing but literals is added to the graph, and the constant that comes out is not
changed by folding it again, also when it is an operator some of whose operands can be folded. That
the graph can be reached rules out one fault, an operator of a type that the table has not handed
out, whose bits could not be counted. -/
theorem simplify_settles (hg : g.Reachable) (hback : g.ConstsInOrder)
    (hc : g.consts.get? c = some ⟨data, type⟩) :
    ∃ c' g' folded, g.simplify c = .ok (c', g') ∧ AddsLiterals g g' ∧
      g'.consts.get? c' = some ⟨folded, type⟩ ∧
      g'.valueType (.const c') = g.valueType (.const c) ∧
      (c' = c ∨ g.consts.size ≤ c'.index ∧ folded.IsLiteralOf type) ∧
      (∀ op x y, data = .expr (.binary op (.const x) (.const y)) →
        ∃ sx sy literal, g.SimplifiesTo x sx ∧ g.SimplifiesTo y sy ∧
          g.foldLiterals op sx.data sy.data = .ok literal ∧ folded = literal.getD data) ∧
      ∃ g'', g'.simplify c' = .ok (c', g'') ∧ AddsLiterals g' g'' := by
  have hlt : c.index < g.consts.size := Arena.index_lt_of_get? hc
  obtain ⟨edits, hrun⟩ := hg.exists_run
  obtain ⟨folded, hfolds, hoperator⟩ :=
    exists_foldsTo hg.known (constsTyped_of_run hrun) hback hc
  obtain ⟨c', g', hsimp, hadds, hget, hend⟩ :=
    hfolds.folds g _ (.refl g) (Nat.lt_succ_of_lt hlt)
  have htype : g'.valueType (.const c') = g.valueType (.const c) := by
    simp only [valueType, hget, hc]
  exact ⟨c', g', folded, hsimp, hadds, hget, htype, hend, hoperator,
    hfolds.simplify_again hadds hlt hget (hend.imp_right And.right)⟩

/-- The quotient is left alone after literals were added for its operands, and again the next
time. -/
theorem foldGraph_settles :
    foldGraph.Reachable ∧ foldGraph.ConstsInOrder ∧ ∃ g' g'', foldGraph.simplify ⟨8⟩ = .ok (⟨8⟩, g') ∧
      foldGraph.consts.size < g'.consts.size ∧ g'.simplify ⟨8⟩ = .ok (⟨8⟩, g'') := by
  have hback : foldGraph.ConstsInOrder := by decide
  have hg : foldGraph.Reachable :=
    Reachable.empty.of_typedRun (show empty.typedRun foldRun from rfl) rfl
  have hkept : ∃ g', foldGraph.simplify ⟨8⟩ = .ok (⟨8⟩, g') ∧
      foldGraph.consts.size < g'.consts.size := ⟨_, rfl, by decide⟩
  obtain ⟨g', hfirst, hsize⟩ := hkept
  obtain ⟨c', mid, data, hsimp, -, -, -, -, -, g'', hagain, -⟩ := simplify_settles hg hback
    (show foldGraph.consts.get? ⟨8⟩ = some
      ⟨.expr (.binary .sdiv (.const ⟨6⟩) (.const ⟨7⟩)), ⟨5⟩⟩ from rfl)
  cases hsimp.symm.trans hfirst
  exact ⟨hg, hback, g', g'', hfirst, hsize, hagain⟩

end Main

end Graph

end IrGraph
