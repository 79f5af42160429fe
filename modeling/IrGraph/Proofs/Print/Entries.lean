import IrGraph.Proofs.Print.Definitions

/-! What stands between the brackets of a specialised metadata node: its entries, with a comma and a
space between neighbours. Empty fields leave no trace, except that the operands of a generic node
are written as if some field stood before them. -/

namespace IrGraph

namespace Doc

theorem render_join (separator : String) (ds : List Doc) :
    (join separator ds).render = separator.intercalate (ds.map render) := by
  induction ds with
  | nil => exact String.intercalate_nil.symm
  | cons d ds ih =>
    cases ds with
    | nil => exact String.intercalate_singleton.symm
    | cons e ds =>
      change (d ++ [Piece.text separator] ++ join separator (e :: ds)).render = _
      rw [render_append, render_append, ih]
      simp [render, Piece.render]

theorem render_commaSep (ds : List Doc) :
    (commaSep ds).render = ", ".intercalate (ds.map render) :=
  render_join ", " ds

/-- One more entry behind a list, written with a separator in front of it in any case. -/
theorem render_commaSep_append (ds : List Doc) {d last : Doc} (h : d.render = ", " ++ last.render) :
    (commaSep ds ++ d).render =
      (if ds = [] then ", " else "") ++ ", ".intercalate ((ds ++ [last]).map render) := by
  rw [render_append, render_commaSep, h]
  by_cases hds : ds = []
  · simp [hds]
  · have hne : ds.map render ≠ [] := fun hnil => hds (List.map_eq_nil_iff.mp hnil)
    rw [if_neg hds, String.empty_append, List.map_append, List.map_singleton,
      String.intercalate_append_of_ne_nil hne (List.cons_ne_nil _ _),
      String.intercalate_singleton, String.append_assoc]

end Doc

namespace Field

/-- A word of letters. -/
def IsKey (key : String) : Prop :=
  key ≠ "" ∧ key.toList.all Char.isAlpha = true

instance : DecidablePred IsKey := fun _ => inferInstanceAs (Decidable (_ ∧ _))

/-- Every key is a word of letters. -/
def Keyed (fields : List Field) : Prop :=
  ∀ f ∈ fields, IsKey f.1

variable {key : String} {value : FieldValue} {fields fields' : List Field}

theorem keyed_nil : Keyed [] :=
  fun _ hf => nomatch hf

theorem keyed_append : Keyed (fields ++ fields') ↔ Keyed fields ∧ Keyed fields' :=
  List.forall_mem_append

theorem keyed_singleton : Keyed [(key, value)] ↔ IsKey key :=
  List.forall_mem_singleton

theorem keyed_unless {p : Prop} [Decidable p] (hk : IsKey key) :
    Keyed (if p then [] else [(key, value)]) := by
  split
  · exact keyed_nil
  · exact keyed_singleton.mpr hk

theorem keyed_ref {m : Option MetadataRef} (hk : IsKey key) : Keyed (ref key m) := by
  cases m with
  | none => exact keyed_nil
  | some m => exact keyed_singleton.mpr hk

theorem keyed_flag {b : Bool} (hk : IsKey key) : Keyed (flag key b) := by
  cases b with
  | false => exact keyed_nil
  | true => exact keyed_singleton.mpr hk

end Field

/-- A key, a colon and what stands after it. -/
def Doc.IsKeyed (d : Doc) : Prop :=
  ∃ key value, Field.IsKey key ∧ d.render = key ++ ": " ++ value

open IrGraph.Field in
theorem MetadataNode.keyed_fields (n : MetadataNode) : Keyed n.fields := by
  cases n <;> simp +decide only [fields, Field.string, enum, uint, int, keyed_nil, keyed_append,
    keyed_singleton, keyed_unless, keyed_ref, keyed_flag, and_self]

namespace Graph

variable {g : Graph} {n : MetadataNode} {d : Doc} {entries : List Doc} {fault : Fault}

section Entries

/-- The entry of the operands of a generic node, if it has any. -/
def operandsEntry (g : Graph) (operands : List MetadataRef) : Except Fault (List Doc) := do
  if operands.isEmpty then return []
  return ["operands: " ++ (← g.metadataListDoc operands)]

/-- The entries of a specialised node: the elements of an expression; of any other node the fields,
and the operands behind those of a generic node. -/
def entryDocs (g : Graph) : MetadataNode → Except Fault (List Doc)
  | .expression e => return e.elements.map fun s => [.text s]
  | .generic e =>
    return (← (MetadataNode.generic e).fields.mapM g.fieldDoc) ++ (← g.operandsEntry e.operands)
  | n => n.fields.mapM g.fieldDoc

variable {operands : List MetadataRef} {ds last : List Doc}

theorem exists_genericOperandsDoc (h : g.operandsEntry operands = .ok last) (ds : List Doc) :
    ∃ d, g.genericOperandsDoc operands = .ok d ∧
      (Doc.commaSep ds ++ d).render = (if ds = [] ∧ operands ≠ [] then ", " else "") ++
        ", ".intercalate ((ds ++ last).map Doc.render) := by
  cases operands with
  | nil =>
    cases h
    exact ⟨[], rfl, by simp [Doc.render_commaSep]⟩
  | cons m operands =>
    obtain ⟨list, hlist, h⟩ := bind_eq_ok_iff.mp h
    cases pure_eq_ok_iff.mp h
    refine ⟨_, bind_eq_ok_iff.mpr ⟨list, hlist, rfl⟩, ?_⟩
    have hlast : Doc.render (", operands: " ++ list) = ", " ++ Doc.render ("operands: " ++ list) := by
      rw [Doc.render_append, Doc.render_append, ← String.append_assoc]
      rfl
    simpa using Doc.render_commaSep_append ds hlast

theorem genericOperandsDoc_eq_error (h : g.operandsEntry operands = .error fault) :
    g.genericOperandsDoc operands = .error fault := by
  cases operands with
  | nil => cases h
  | cons m operands =>
    refine bind_eq_error_iff.mpr (.inl ?_)
    obtain h | ⟨_, _, h⟩ := bind_eq_error_iff.mp h
    · exact h
    · exact (pure_ne_error h).elim

theorem exists_entriesDoc (hspecial : n.specialName?.isSome) (h : g.entryDocs n = .ok entries) :
    ∃ d, g.entriesDoc n = .ok d ∧
      d.render = (if n.fields = [] ∧ n.elements ≠ [] then ", " else "") ++
        ", ".intercalate (entries.map Doc.render) := by
  cases n with
  | tuple | value | string | null => cases hspecial
  | expression e =>
    cases h
    have hall : Doc.render ∘ (fun s => [Piece.text s]) = id := by
      funext s
      simp [Doc.render, Piece.render]
    exact ⟨_, rfl, by simp [MetadataNode.elements, Doc.render, Piece.render, hall]⟩
  | generic e =>
    simp only [entryDocs, bind_eq_ok_iff, pure_eq_ok_iff] at h
    obtain ⟨ds, hds, last, hlast, rfl⟩ := h
    obtain ⟨d, hd, hrender⟩ := exists_genericOperandsDoc hlast ds
    refine ⟨Doc.commaSep ds ++ d, ?_, ?_⟩
    · simp only [entriesDoc, bind_eq_ok_iff, pure_eq_ok_iff]
      exact ⟨ds, hds, d, hd, rfl⟩
    · have hempty : ds = [] ↔ (MetadataNode.generic e).fields = [] := by
        rw [← List.length_eq_zero_iff, length_of_mapM hds, List.length_eq_zero_iff]
      rw [hrender]
      exact congrArg (· ++ _) (if_congr (and_congr_left' hempty) rfl rfl)
  | _ =>
    refine ⟨Doc.commaSep entries, bind_eq_ok_iff.mpr ⟨entries, h, rfl⟩, ?_⟩
    simp [MetadataNode.elements, Doc.render_commaSep]

theorem entriesDoc_eq_error (h : g.entryDocs n = .error fault) :
    g.entriesDoc n = .error fault := by
  cases n with
  | tuple | value | string | null | expression => cases h
  | generic e =>
    obtain h | ⟨ds, hds, h⟩ := bind_eq_error_iff.mp h
    · exact bind_eq_error_iff.mpr (.inl h)
    · refine bind_eq_error_iff.mpr (.inr ⟨ds, hds, bind_eq_error_iff.mpr (.inl ?_)⟩)
      obtain h | ⟨_, _, h⟩ := bind_eq_error_iff.mp h
      · exact genericOperandsDoc_eq_error h
      · exact (pure_ne_error h).elim
  | _ => exact bind_eq_error_iff.mpr (.inl h)

theorem isKeyed_of_fieldDoc {f : Field} (hkey : Field.IsKey f.1) (h : g.fieldDoc f = .ok d) :
    d.IsKeyed := by
  obtain ⟨value, -, h⟩ := bind_eq_ok_iff.mp h
  cases pure_eq_ok_iff.mp h
  exact ⟨f.1, value.render, hkey, by simp [Doc.render, Piece.render, String.append_assoc]⟩

theorem isKeyed_of_operandsEntry (h : g.operandsEntry operands = .ok last) (hd : d ∈ last) :
    d.IsKeyed := by
  cases operands with
  | nil =>
    cases h
    cases hd
  | cons m operands =>
    obtain ⟨list, -, h⟩ := bind_eq_ok_iff.mp h
    cases pure_eq_ok_iff.mp h
    cases List.mem_singleton.mp hd
    refine ⟨"operands", list.render, by decide, ?_⟩
    rw [Doc.render_append]
    rfl

theorem isKeyed_of_mem_entryDocs (hexpr : ∀ e, n ≠ .expression e) (h : g.entryDocs n = .ok entries)
    (hd : d ∈ entries) : d.IsKeyed := by
  have hfield {ds : List Doc} (hds : n.fields.mapM g.fieldDoc = .ok ds) (hmem : d ∈ ds) :
      d.IsKeyed := by
    obtain ⟨f, hf, hdoc⟩ := exists_of_mem_mapM hds hmem
    exact isKeyed_of_fieldDoc (n.keyed_fields f hf) hdoc
  cases n with
  | expression e => exact (hexpr e rfl).elim
  | generic e =>
    simp only [entryDocs, bind_eq_ok_iff, pure_eq_ok_iff] at h
    obtain ⟨ds, hds, last, hlast, rfl⟩ := h
    obtain hmem | hmem := List.mem_append.mp hd
    · exact hfield hds hmem
    · exact isKeyed_of_operandsEntry hlast hmem
  | _ => exact hfield h hd

end Entries

section Definition

variable {name : String}

theorem definitionDoc?_of_special (hname : n.specialName? = some name) :
    g.definitionDoc? n = do return some ("!" ++ name ++ "(" ++ (← g.entriesDoc n) ++ ")") := by
  unfold definitionDoc?
  rw [hname]

theorem render_bracketed (d : Doc) :
    Doc.render ("!" ++ name ++ "(" ++ d ++ ")") = "!" ++ name ++ "(" ++ d.render ++ ")" := by
  simp only [Doc.render_append]
  rfl

/-- The definition of a specialised node has its entries between the brackets, joined by a comma and
a space, exactly when it is not the case that the node has operands and no fields. A generic node
with operands and no fields has the separator in front of the operands. No entry is empty or starts
with a separator but the elements of an expression, which are written as they are. -/
theorem definition_joins_entries (g : Graph) {n : MetadataNode} {name : String}
    (hname : n.specialName? = some name) :
    (∀ fault, g.definitionDoc? n = .error fault ↔ g.entryDocs n = .error fault) ∧
    ∀ entries, g.entryDocs n = .ok entries →
      (∃ d, g.definitionDoc? n = .ok (some d) ∧
        d.render = "!" ++ name ++ "(" ++ (if n.fields = [] ∧ n.elements ≠ [] then ", " else "") ++
          ", ".intercalate (entries.map Doc.render) ++ ")" ∧
        (d.render = "!" ++ name ++ "(" ++ ", ".intercalate (entries.map Doc.render) ++ ")" ↔
          ¬(n.fields = [] ∧ n.elements ≠ []))) ∧
      ((∀ e, n ≠ .expression e) → ∀ entry ∈ entries, entry.IsKeyed) := by
  have hspecial : n.specialName?.isSome := Option.isSome_of_eq_some hname
  rw [definitionDoc?_of_special hname]
  refine ⟨fun fault => ⟨fun h => ?_, fun h => ?_⟩, fun entries hentries => ⟨?_, ?_⟩⟩
  · cases hentries : g.entryDocs n with
    | ok entries =>
      obtain ⟨d, hd, -⟩ := exists_entriesDoc hspecial hentries
      rw [hd] at h
      cases h
    | error fault' =>
      rw [entriesDoc_eq_error hentries] at h
      cases h
      rfl
  · rw [entriesDoc_eq_error h]
    rfl
  · obtain ⟨d, hd, hrender⟩ := exists_entriesDoc hspecial hentries
    refine ⟨_, by rw [hd]; rfl, ?_⟩
    rw [render_bracketed, hrender]
    refine ⟨by simp only [String.append_assoc], ?_⟩
    split
    case isTrue hlead =>
      -- the two texts have different lengths
      refine iff_of_false (fun heq => ?_) (not_not_intro hlead)
      have hlength := congrArg String.length heq
      simp at hlength
    case isFalse hlead => simp [hlead]
  · exact fun hexpr entry hentry => isKeyed_of_mem_entryDocs hexpr hentries hentry

/-- A string that generic nodes can have as an operand. -/
def quotedGraph : Graph :=
  (empty.addMetadata (.string "z")).2

theorem quotedGraph_joins_entries :
    ∃ d, quotedGraph.definitionDoc? (.generic ⟨"t", "", [⟨0⟩]⟩) = .ok (some d) ∧
      d.render = "!GenericDINode(tag: t, operands: !\x7b!\"z\"\x7d)" := by
  have hname : MetadataNode.specialName? (.generic ⟨"t", "", [⟨0⟩]⟩) = some "GenericDINode" := rfl
  obtain ⟨⟨d, hd, -, hjoined⟩, -⟩ := (definition_joins_entries quotedGraph hname).2 _ rfl
  have hfields : ¬((MetadataNode.generic ⟨"t", "", [⟨0⟩]⟩).fields = [] ∧
      (MetadataNode.generic ⟨"t", "", [⟨0⟩]⟩).elements ≠ []) := by decide
  exact ⟨d, hd, (hjoined.mpr hfields).trans (by decide)⟩

/-- Without fields there is a separator that separates nothing. -/
theorem exists_leading_separator :
    ¬∀ (g : Graph) (n : MetadataNode) (name : String) (entries : List Doc),
      n.specialName? = some name → g.entryDocs n = .ok entries →
        ∃ d, g.definitionDoc? n = .ok (some d) ∧
          d.render = "!" ++ name ++ "(" ++ ", ".intercalate (entries.map Doc.render) ++ ")" := by
  intro h
  obtain ⟨d, hd, hrender⟩ :=
    h quotedGraph (.generic ⟨"", "", [⟨0⟩]⟩) "GenericDINode" _ rfl rfl
  cases hd
  revert hrender
  decide

end Definition

end Graph

end IrGraph
