import IrGraph.Print.Operand
import IrGraph.Proofs.Text.OneLine

/-! What the document of an operand is made of: texts on one line and documents of what it stands
for, down to the numbers of metadata nodes. -/

namespace IrGraph

/-- Strings, values and null stand where they are used; any other node has a definition, and is
referred to by its number. -/
def MetadataNode.isDefined : MetadataNode → Bool
  | .value _ | .string _ | .null => false
  | _ => true

namespace Doc

/-- Each piece is a text on one line, or stands in the document of one of the parts. -/
def From (operand : Graph.Printer) (parts : List Value) (d : Doc) : Prop :=
  ∀ p ∈ d, (∃ s, p = .text s ∧ OneLine s) ∨ ∃ v ∈ parts, ∃ dv, operand v = .ok dv ∧ p ∈ dv

variable {operand : Graph.Printer} {parts : List Value} {d e : Doc} {ds : List Doc}
  {separator s : String} {v : Value}

@[simp]
theorem from_nil : From operand parts [] := by
  simp [From]

@[simp]
theorem from_text_cons (h : OneLine s) :
    From operand parts (.text s :: d) ↔ From operand parts d := by
  simp [From, h]

@[simp]
theorem from_append :
    From operand parts (d ++ e) ↔ From operand parts d ∧ From operand parts e := by
  simp only [From, List.mem_append, or_imp, forall_and]

theorem from_operand (hv : v ∈ parts) (h : operand v = .ok d) : From operand parts d :=
  fun _ hp => .inr ⟨v, hv, d, h, hp⟩

theorem mem_join {p : Piece} (hp : p ∈ join separator ds) :
    p = .text separator ∨ ∃ d ∈ ds, p ∈ d := by
  induction ds with
  | nil => simp [join] at hp
  | cons d ds ih =>
    cases ds with
    | nil => exact .inr ⟨d, List.mem_cons_self, hp⟩
    | cons e ds =>
      simp only [join, List.mem_append, List.mem_singleton] at hp
      rcases hp with (hp | hp) | hp
      · exact .inr ⟨d, List.mem_cons_self, hp⟩
      · exact .inl hp
      · exact (ih hp).imp_right fun ⟨d', hd', hp'⟩ => ⟨d', List.mem_cons_of_mem d hd', hp'⟩

theorem from_join (hsep : OneLine separator) (h : ∀ d ∈ ds, From operand parts d) :
    From operand parts (join separator ds) := by
  intro p hp
  rcases mem_join hp with rfl | ⟨d, hd, hp⟩
  · exact .inl ⟨separator, rfl, hsep⟩
  · exact h d hd p hp

end Doc

namespace Graph

variable {g : Graph} {operand : Printer} {parts : List Value} {d : Doc} {v : Value} {type : TypeRef}

section Parts

theorem typed_from (hv : v ∈ parts) (h : g.typed operand v = .ok d) :
    d.From operand parts := by
  simp only [typed, bind_eq_ok_iff, pure_eq_ok_iff] at h
  obtain ⟨type, -, text, htext, inner, hinner, rfl⟩ := h
  have htext := oneLine_of_typeText htext
  have hinner : inner.From operand parts := Doc.from_operand hv hinner
  simp +decide [htext, hinner]

theorem typedList_from (h : g.typedList operand parts = .ok d) :
    d.From operand parts := by
  simp only [typedList, bind_eq_ok_iff, pure_eq_ok_iff] at h
  obtain ⟨ds, hds, rfl⟩ := h
  refine Doc.from_join (by decide) fun d hd => ?_
  obtain ⟨v, hv, hvd⟩ := exists_of_mem_mapM hds hd
  exact typed_from hv hvd

theorem oneLine_pathText (path : List Nat) : OneLine (pathText path) := by
  refine oneLine_join fun s hs => ?_
  obtain ⟨i, -, rfl⟩ := List.mem_map.mp hs
  simp +decide

theorem exprDoc_from {e : ConstExpr} (h : g.exprDoc operand e = .ok d) :
    d.From operand e.parts := by
  cases e with
  | getElementPtr elemType source indices inBounds =>
    simp only [exprDoc, bind_eq_ok_iff, pure_eq_ok_iff] at h
    obtain ⟨text, htext, inner, hinner, rfl⟩ := h
    have htext := oneLine_of_typeText htext
    have hinner := typedList_from hinner
    cases inBounds <;> simp +decide [ConstExpr.parts, htext, hinner]
  | conversion op x target =>
    simp only [exprDoc, bind_eq_ok_iff, pure_eq_ok_iff] at h
    obtain ⟨inner, hinner, text, htext, rfl⟩ := h
    have htext := oneLine_of_typeText htext
    have hinner := typedList_from hinner
    simp +decide [ConstExpr.parts, htext, hinner]
  | _ =>
    simp only [exprDoc, bind_eq_ok_iff, pure_eq_ok_iff] at h
    obtain ⟨inner, hinner, rfl⟩ := h
    have hinner := typedList_from hinner
    simp +decide [ConstExpr.parts, oneLine_pathText, hinner]

theorem oneLine_of_intText {value : BitVec 128} {s : String} (h : g.intText type value = .ok s) :
    OneLine s := by
  obtain ⟨bits, -, h⟩ := bind_eq_ok_iff.mp h
  split at h
  · obtain rfl := pure_eq_ok_iff.mp h
    split <;> decide
  · obtain rfl := pure_eq_ok_iff.mp h
    exact oneLine_int value.toInt

theorem constantDoc_from {c : Constant} (h : g.constantDoc operand c = .ok d) :
    d.From operand c.parts := by
  cases c with
  | int =>
    simp only [constantDoc, bind_eq_ok_iff, pure_eq_ok_iff] at h
    obtain ⟨s, hs, rfl⟩ := h
    simp [oneLine_of_intText hs]
  | struct type fields =>
    simp only [constantDoc, bind_eq_ok_iff, pure_eq_ok_iff] at h
    obtain ⟨ty, -, inner, hinner, rfl⟩ := h
    have hinner := typedList_from hinner
    split
    · split <;> simp +decide [Constant.parts, hinner]
    · simp +decide [Constant.parts, hinner]
  | array | vector =>
    simp only [constantDoc, bind_eq_ok_iff, pure_eq_ok_iff] at h
    obtain ⟨inner, hinner, rfl⟩ := h
    have hinner := typedList_from hinner
    simp +decide [Constant.parts, hinner]
  | blockAddress func block =>
    simp only [constantDoc, bind_eq_ok_iff, pure_eq_ok_iff] at h
    obtain ⟨df, hf, db, hb, rfl⟩ := h
    have hf : df.From operand [func, block] := Doc.from_operand (by simp) hf
    have hb : db.From operand [func, block] := Doc.from_operand (by simp) hb
    simp +decide [Constant.parts, hf, hb]
  | expr e => exact exprDoc_from h
  | _ =>
    obtain rfl := pure_eq_ok_iff.mp h
    simp +decide

end Parts

section Operand

variable {depth depth' : Nat} {p : Piece}

/-- What holds of texts on one line and of the numbers of defined nodes, and goes from what stands in
a constant or in a wrapped value to what it stands in, holds of all that an operand is printed as. -/
theorem operandWithin_induction {P : Value → Piece → Prop}
    (htext : ∀ v s, OneLine s → P v (.text s))
    (hmention : ∀ m n, g.metadata.get? m = some n → n.isDefined → P (.metadata m) (.mention m.index))
    (hconst : ∀ c x v p, g.consts.get? c = some x → v ∈ x.data.parts → P v p → P (.const c) p)
    (hwrapped : ∀ m v p, g.metadata.get? m = some (.value v) → P v p → P (.metadata m) p)
    (h : g.operandWithin depth v = .ok d) (hp : p ∈ d) : P v p := by
  induction depth generalizing v d p with
  | zero => cases h
  | succ depth ih =>
    -- whatever is printed of the parts is one level less deep
    have hfrom (parts : List Value) (hd : d.From (g.operandWithin depth) parts)
        (hparts : ∀ w ∈ parts, ∀ p, P w p → P v p) : P v p := by
      rcases hd p hp with ⟨s, rfl, hs⟩ | ⟨w, hw, dw, hdw, hpw⟩
      · exact htext v s hs
      · exact hparts w hw p (ih hdw hpw)
    cases v with
    | const c =>
      simp only [operandWithin, bind_eq_ok_iff, Arena.get_eq_ok_iff] at h
      obtain ⟨x, hx, h⟩ := h
      exact hfrom x.data.parts (constantDoc_from h) fun w hw p => hconst c x w p hx hw
    | metadata m =>
      simp only [operandWithin, bind_eq_ok_iff, Arena.get_eq_ok_iff] at h
      obtain ⟨n, hn, h⟩ := h
      cases n with
      | value w =>
        refine hfrom [w] (typed_from List.mem_cons_self h) fun w' hw' p hP => ?_
        obtain rfl := List.mem_singleton.mp hw'
        exact hwrapped m w' p hn hP
      | string s =>
        obtain rfl := pure_eq_ok_iff.mp h
        exact hfrom [] (by simp +decide) (by simp)
      | null =>
        obtain rfl := pure_eq_ok_iff.mp h
        exact hfrom [] (by simp +decide) (by simp)
      | _ =>
        obtain rfl := pure_eq_ok_iff.mp h
        obtain rfl := List.mem_singleton.mp hp
        exact hmention m _ hn rfl
    | param | block | inst | term =>
      simp only [operandWithin, bind_eq_ok_iff, pure_eq_ok_iff] at h
      obtain ⟨ident, -, rfl⟩ := h
      have hident : OneLine ((ident.map Ident.text).getD "?") := by
        cases ident with
        | none => decide
        | some ident => exact oneLine_identText ident
      exact hfrom [] (by simp +decide [hident]) (by simp)
    | _ =>
      simp only [operandWithin, bind_eq_ok_iff, pure_eq_ok_iff] at h
      obtain ⟨name, -, rfl⟩ := h
      exact hfrom [] (by simp +decide) (by simp)

section Depth

variable {operand' : Printer} {vs : List Value}

theorem typed_mono (hop : ∀ v d, operand v = .ok d → operand' v = .ok d)
    (h : g.typed operand v = .ok d) : g.typed operand' v = .ok d := by
  simp only [typed, bind_eq_ok_iff, pure_eq_ok_iff] at h ⊢
  obtain ⟨type, htype, text, htext, inner, hinner, rfl⟩ := h
  exact ⟨type, htype, text, htext, inner, hop v inner hinner, rfl⟩

theorem typedList_mono (hop : ∀ v d, operand v = .ok d → operand' v = .ok d)
    (h : g.typedList operand vs = .ok d) : g.typedList operand' vs = .ok d := by
  simp only [typedList, bind_eq_ok_iff, pure_eq_ok_iff] at h ⊢
  obtain ⟨ds, hds, rfl⟩ := h
  exact ⟨ds, mapM_mono (fun v _ d hd => typed_mono hop hd) hds, rfl⟩

theorem exprDoc_mono {e : ConstExpr} (hop : ∀ v d, operand v = .ok d → operand' v = .ok d)
    (h : g.exprDoc operand e = .ok d) : g.exprDoc operand' e = .ok d := by
  cases e with
  | getElementPtr =>
    simp only [exprDoc, bind_eq_ok_iff, pure_eq_ok_iff] at h ⊢
    obtain ⟨text, htext, inner, hinner, rfl⟩ := h
    exact ⟨text, htext, inner, typedList_mono hop hinner, rfl⟩
  | conversion =>
    simp only [exprDoc, bind_eq_ok_iff, pure_eq_ok_iff] at h ⊢
    obtain ⟨inner, hinner, text, htext, rfl⟩ := h
    exact ⟨inner, typedList_mono hop hinner, text, htext, rfl⟩
  | _ =>
    simp only [exprDoc, bind_eq_ok_iff, pure_eq_ok_iff] at h ⊢
    obtain ⟨inner, hinner, rfl⟩ := h
    exact ⟨inner, typedList_mono hop hinner, rfl⟩

theorem constantDoc_mono {c : Constant} (hop : ∀ v d, operand v = .ok d → operand' v = .ok d)
    (h : g.constantDoc operand c = .ok d) : g.constantDoc operand' c = .ok d := by
  cases c with
  | struct =>
    simp only [constantDoc, bind_eq_ok_iff, pure_eq_ok_iff] at h ⊢
    obtain ⟨ty, hty, inner, hinner, rfl⟩ := h
    exact ⟨ty, hty, inner, typedList_mono hop hinner, rfl⟩
  | array | vector =>
    simp only [constantDoc, bind_eq_ok_iff, pure_eq_ok_iff] at h ⊢
    obtain ⟨inner, hinner, rfl⟩ := h
    exact ⟨inner, typedList_mono hop hinner, rfl⟩
  | blockAddress func block =>
    simp only [constantDoc, bind_eq_ok_iff, pure_eq_ok_iff] at h ⊢
    obtain ⟨df, hf, db, hb, rfl⟩ := h
    exact ⟨df, hop func df hf, db, hop block db hb, rfl⟩
  | expr e => exact exprDoc_mono hop h
  | _ => exact h

theorem operandWithin_succ (h : g.operandWithin depth v = .ok d) :
    g.operandWithin (depth + 1) v = .ok d := by
  induction depth generalizing v d with
  | zero => cases h
  | succ depth ih =>
    have hop := fun v d => ih (v := v) (d := d)
    cases v with
    | const c =>
      simp only [operandWithin, bind_eq_ok_iff] at h ⊢
      obtain ⟨x, hx, h⟩ := h
      exact ⟨x, hx, constantDoc_mono hop h⟩
    | metadata m =>
      simp only [operandWithin, bind_eq_ok_iff] at h ⊢
      obtain ⟨n, hn, h⟩ := h
      refine ⟨n, hn, ?_⟩
      cases n with
      | value w => exact typed_mono hop h
      | _ => exact h
    | _ => exact h

end Depth

/-- Whether a node is there and has a definition. -/
def defines (g : Graph) (m : MetadataRef) : Bool :=
  (g.metadata.get? m).any MetadataNode.isDefined

theorem defines_iff {m : MetadataRef} :
    g.defines m ↔ ∃ n, g.metadata.get? m = some n ∧ n.isDefined := by
  rw [defines, Option.any_eq_true]

/-- A text on one line, or the number of a node that has a definition. -/
def Inline (g : Graph) : Piece → Prop
  | .text s => OneLine s
  | .mention n => g.defines ⟨n⟩
  | .heading _ => False

/-- A document without line breaks and headings, whose numbers all have a definition. -/
def InlineDoc (g : Graph) (d : Doc) : Prop :=
  ∀ p ∈ d, g.Inline p

theorem inlineDoc_of_operandDoc (h : g.operandDoc v = .ok d) : g.InlineDoc d := by
  have hmention : ∀ (m : MetadataRef) n, g.metadata.get? m = some n → n.isDefined →
      g.Inline (.mention m.index) := by
    intro m n hn hdef
    exact defines_iff.mpr ⟨n, hn, hdef⟩
  intro p hp
  exact operandWithin_induction (P := fun _ => g.Inline) (fun _ _ hs => hs) hmention
    (fun _ _ _ _ _ _ hP => hP) (fun _ _ _ _ hP => hP) h hp

theorem inlineDoc_of_from (h : d.From g.operandDoc parts) : g.InlineDoc d := by
  intro p hp
  rcases h p hp with ⟨s, rfl, hs⟩ | ⟨v, -, dv, hdv, hpv⟩
  · exact hs
  · exact inlineDoc_of_operandDoc hdv p hpv

end Operand

end Graph

end IrGraph
