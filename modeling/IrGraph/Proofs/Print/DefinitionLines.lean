import IrGraph.Proofs.Print.Count
import IrGraph.Proofs.Print.Entries
import IrGraph.Proofs.Text.Name

/-! The definitions of metadata nodes in the text of a module. The names of named lists and some
words of a definition are printed as they are, so a list with the name `0`, or a word with a line
break in it, can look like one more definition. Without such names and words, the lines that begin
with `!N = ` are the definitions. -/

namespace IrGraph

/-- Whether a line begins the way the definition of a node does. -/
def isDefinitionOf (number : Nat) (line : String) : Bool :=
  (Piece.heading number).render.toList.isPrefixOf line.toList

def FieldValue.word? : FieldValue → Option String
  | .enum s => some s
  | _ => none

/-- The words that stand in a definition as they are. -/
def MetadataNode.words : MetadataNode → List String
  | .expression e => e.elements
  | n => n.fields.filterMap (·.2.word?)

/-- Metadata in which no word and no name of a list is broken over lines, and no such name begins
with a digit. -/
structure Graph.PlainMetadata (g : Graph) : Prop where
  oneLine_word : ∀ m n, g.metadata.get? m = some n → ∀ s ∈ n.words, OneLine s
  oneLine_name : ∀ l x, g.namedMetadata.get? l = some x → OneLine x.name
  not_isDigit_name : ∀ l x, g.namedMetadata.get? l = some x →
    ∀ c ∈ x.name.toList.head?, ¬c.isDigit

namespace Doc

/-- A line of text that begins with `!N = ` just if it is the definition of the node `N`. -/
structure IsLine (d : Doc) : Prop where
  oneLine : OneLine d.render
  count_headings (number : Nat) :
    d.headings.count number = if isDefinitionOf number d.render then 1 else 0

/-- The lines of the parts of a text, with an empty line between neighbours. -/
def paragraphs : List (List Doc) → List Doc
  | [] => [[]]
  | [part] => part
  | part :: parts => part ++ [[]] ++ paragraphs parts

variable {d : Doc} {part : List Doc} {parts : List (List Doc)} {number : Nat}

theorem mem_paragraphs (h : d ∈ paragraphs parts) : d = [] ∨ d ∈ parts.flatten := by
  induction parts with
  | nil => exact .inl (List.mem_singleton.mp h)
  | cons part parts ih =>
    cases parts with
    | nil => exact .inr (by simpa [paragraphs] using h)
    | cons part' parts =>
      simp only [paragraphs, List.mem_append, List.mem_singleton] at h
      rw [List.flatten_cons, List.mem_append]
      obtain (h | h) | h := h
      · exact .inr (.inl h)
      · exact .inl h
      · exact (ih h).imp_right .inr

theorem headings_paragraphs :
    (paragraphs parts).flatMap headings = parts.flatten.flatMap headings := by
  induction parts with
  | nil => rfl
  | cons part parts ih =>
    cases parts with
    | nil => simp [paragraphs]
    | cons part' parts =>
      rw [paragraphs, List.flatMap_append, List.flatMap_append, ih, List.flatten_cons,
        List.flatMap_append]
      · simp [headings]
      · simp

theorem render_part (h : part ≠ []) :
    (join "\n" part).render ++ "\n" = String.join (part.map fun d => d.render ++ "\n") := by
  rw [render_join]
  induction part with
  | nil => exact absurd rfl h
  | cons d part ih =>
    cases part with
    | nil => simp
    | cons e part =>
      rw [List.map_cons, String.intercalate_cons_of_ne_nil (by simp), String.append_assoc,
        ih (List.cons_ne_nil e part)]
      exact String.join_cons.symm

/-- Parts that stand apart by empty lines are lines, each with a line break at its end. -/
theorem render_paragraphs (h : ∀ part ∈ parts, part ≠ []) :
    (join "\n\n" (parts.map (join "\n"))).render ++ "\n" =
      String.join ((paragraphs parts).map fun d => d.render ++ "\n") := by
  rw [render_join]
  induction parts with
  | nil => rfl
  | cons part parts ih =>
    obtain ⟨hpart, hparts⟩ := List.forall_mem_cons.mp h
    cases parts with
    | nil => simpa [paragraphs] using render_part hpart
    | cons part' parts =>
      have hbreaks : "\n\n" = "\n" ++ (render [] ++ "\n") := rfl
      rw [List.map_cons, List.map_cons, String.intercalate_cons_of_ne_nil (by simp),
        String.append_assoc, ih hparts, hbreaks]
      simp [paragraphs, ← render_part hpart, String.append_assoc]

/-- Among lines of text, as many begin with `!N = ` as there are definitions of the node `N`. -/
theorem countP_isDefinitionOf {lines : List Doc} (h : ∀ d ∈ lines, d.IsLine) :
    (lines.map render).countP (isDefinitionOf number) =
      (lines.flatMap headings).count number := by
  induction lines with
  | nil => rfl
  | cons d lines ih =>
    obtain ⟨hd, hlines⟩ := List.forall_mem_cons.mp h
    rw [List.map_cons, List.countP_cons, List.flatMap_cons, List.count_append, ih hlines,
      hd.count_headings, Nat.add_comm]

end Doc

section Marks

variable {number n : Nat} {line : String} {d : Doc} {x : NamedMetadata}

theorem isDefinitionOf_iff : isDefinitionOf number line ↔
    ∃ rest, line.toList = '!' :: (number.repr.toList ++ ' ' :: rest) ∧ ['=', ' '] <+: rest := by
  have hmark : (Piece.heading number).render.toList =
      '!' :: (number.repr.toList ++ ' ' :: ['=', ' ']) := by
    simp [Piece.render]
  rw [isDefinitionOf, List.isPrefixOf_iff_prefix, hmark]
  constructor
  · rintro ⟨rest, h⟩
    exact ⟨_, by simp [← h], List.prefix_append ['=', ' '] rest⟩
  · rintro ⟨_, h, rest, rfl⟩
    exact ⟨rest, by simp [h]⟩

theorem Doc.isLine_nil : IsLine [] where
  oneLine := by decide
  count_headings number := by
    rw [if_neg]
    · rfl
    · intro hdef
      obtain ⟨rest, hrest, -⟩ := isDefinitionOf_iff.mp hdef
      cases hrest

theorem isDefinitionOf_heading : isDefinitionOf number (Doc.render (.heading n :: d)) ↔
    n = number := by
  have hline : (Doc.render (.heading n :: d)).toList =
      '!' :: (n.repr.toList ++ ' ' :: (['=', ' '] ++ d.render.toList)) := by
    simp [Doc.render, Piece.render]
  have hspace (x : List Char) : ∀ c ∈ (' ' :: x).head?, ¬c.isDigit := by simp +decide
  rw [isDefinitionOf_iff, hline]
  constructor
  · rintro ⟨rest, h, -⟩
    exact (repr_append_inj (hspace _) (hspace _) (List.cons.inj h).2).1
  · rintro rfl
    exact ⟨_, rfl, List.prefix_append _ _⟩

/-- A document that begins with a text, and not with an exclamation mark. -/
def Doc.unmarked : Doc → Bool
  | .text s :: _ => s.toList.head?.any (· != '!')
  | _ => false

theorem Doc.unmarked_append (h : d.unmarked) (e : Doc) : unmarked (d ++ e) := by
  cases d with
  | nil => cases h
  | cons p d =>
    cases p with
    | text => exact h
    | _ => cases h

theorem not_isDefinitionOf_of_unmarked (h : d.unmarked) : ¬isDefinitionOf number d.render := by
  intro hdef
  obtain ⟨rest, hrest, -⟩ := isDefinitionOf_iff.mp hdef
  rcases d with _ | ⟨s | _ | _, d⟩
  case cons.text =>
    simp only [Doc.unmarked, Option.any_eq_true] at h
    obtain ⟨c, hc, hmark⟩ := h
    obtain ⟨tail, hs⟩ := List.head?_eq_some_iff.mp hc
    simp [Doc.render, Piece.render, hs] at hrest
    simp [hrest.1] at hmark
  all_goals cases h

theorem not_isDefinitionOf_namedMetadataLine (h : ∀ c ∈ x.name.toList.head?, ¬c.isDigit) :
    ¬isDefinitionOf number (Graph.namedMetadataLine x).render := by
  intro hdef
  obtain ⟨rest, hrest, -⟩ := isDefinitionOf_iff.mp hdef
  obtain ⟨tail, hline⟩ : ∃ tail, (Graph.namedMetadataLine x).render.toList =
      '!' :: (x.name.toList ++ ' ' :: tail) := by
    simp [Graph.namedMetadataLine, Doc.render, Piece.render]
  rw [hline] at hrest
  have hbehind : x.name.toList ++ ' ' :: tail = number.repr.toList ++ ' ' :: rest :=
    (List.cons.inj hrest).2
  obtain ⟨c, digits, hdigits⟩ : ∃ c digits, number.repr.toList = c :: digits :=
    List.exists_cons_of_ne_nil (by rw [Nat.toList_repr]; exact Nat.toDigits_ne_nil)
  have hc : c.isDigit := isDigit_of_repr_eq hdigits
  rw [hdigits] at hbehind
  cases hname : x.name.toList with
  | nil =>
    rw [hname] at hbehind
    obtain rfl : ' ' = c := (List.cons.inj hbehind).1
    exact absurd hc (by decide)
  | cons c' name =>
    rw [hname] at hbehind
    obtain rfl : c' = c := (List.cons.inj hbehind).1
    exact h c' (by rw [hname]; rfl) hc

/-- A number in the place of a name is not told from a definition. -/
example : isDefinitionOf 0 (Graph.namedMetadataLine ⟨"0", [⟨3⟩]⟩).render := by
  decide

end Marks

namespace Graph

variable {g : Graph} {d : Doc} {ds lines : List Doc} {m : MetadataRef} {n : MetadataNode}
  {nodes : List MetadataRef} {r : ModuleRef} {f : FuncRef} {func : Func}

section Body

theorem unmarked_of_headDoc (h : g.headDoc func = .ok d) : d.unmarked := by
  obtain ⟨type, -, h⟩ := bind_eq_ok_iff.mp h
  split at h
  case h_2 => exact (bind_throw_ne_ok h).elim
  case h_1 =>
    simp only [bind_eq_ok_iff, pure_eq_ok_iff] at h
    obtain ⟨text, -, ds, -, dpre, -, dpro, -, dper, -, rfl⟩ := h
    split <;> rfl

theorem unmarked_blockLabel (ident : Ident) : Doc.unmarked [.text (blockLabel ident)] := by
  unfold blockLabel
  split
  case h_1 name _ =>
    obtain ⟨c, rest, hname, hc⟩ := exists_cons_nameText name
    have hmark : c ≠ '!' := by
      rintro rfl
      exact absurd hc (by decide)
    simp [Doc.unmarked, hname, hmark]
  case h_2 => simp [Doc.unmarked]

theorem unmarked_of_mem_indented (h : d ∈ ds.map indented) : d.unmarked := by
  obtain ⟨inner, -, rfl⟩ := List.mem_map.mp h
  rfl

theorem unmarked_of_blockLines {b : BlockRef} (h : g.blockLines b = .ok lines) (hd : d ∈ lines) :
    d.unmarked := by
  simp only [blockLines, bind_eq_ok_iff, pure_eq_ok_iff] at h
  obtain ⟨block, -, insts, -, terms, -, rfl⟩ := h
  simp only [List.mem_append, List.mem_singleton] at hd
  obtain (rfl | hd) | hd := hd
  · exact unmarked_blockLabel block.ident
  · exact unmarked_of_mem_indented hd
  · exact unmarked_of_mem_indented hd

theorem unmarked_of_funcLines (h : g.funcLines f = .ok lines) (hd : d ∈ lines) : d.unmarked := by
  simp only [funcLines, bind_eq_ok_iff] at h
  obtain ⟨func, -, head, hhead, h⟩ := h
  have hhead := unmarked_of_headDoc hhead
  split at h
  · obtain rfl := pure_eq_ok_iff.mp h
    obtain rfl := List.mem_singleton.mp hd
    exact hhead
  · simp only [bind_eq_ok_iff, pure_eq_ok_iff] at h
    obtain ⟨body, hbody, orders, -, rfl⟩ := h
    simp only [List.mem_append, List.mem_singleton] at hd
    obtain ((rfl | hd) | hd) | rfl := hd
    · exact Doc.unmarked_append hhead _
    · obtain ⟨lines, hlines, hd⟩ := List.mem_flatten.mp hd
      obtain ⟨b, -, hb⟩ := exists_of_mem_mapM hbody hlines
      exact unmarked_of_blockLines hb hd
    · exact unmarked_of_mem_indented hd
    · rfl

theorem BodyLine.unmarked (h : g.BodyLine d) : d.unmarked := by
  cases h with
  | @header m _ h =>
    simp only [headerLines, List.mem_append] at h
    obtain (h | h) | h := h
    all_goals
      split at h
      · obtain rfl := List.mem_singleton.mp h
        simp [Doc.unmarked]
      · cases h
  | globalVar h =>
    simp only [globalLine, bind_eq_ok_iff] at h
    obtain ⟨v, -, type, -, h⟩ := h
    split at h
    · obtain rfl := pure_eq_ok_iff.mp h
      rfl
    · simp only [bind_eq_ok_iff, pure_eq_ok_iff] at h
      obtain ⟨init, -, rfl⟩ := h
      rfl
  | globalAlias h =>
    simp only [aliasLine, bind_eq_ok_iff, pure_eq_ok_iff] at h
    obtain ⟨a, -, type, -, aliasee, -, rfl⟩ := h
    rfl
  | ifunc h =>
    simp only [ifuncLine, bind_eq_ok_iff, pure_eq_ok_iff] at h
    obtain ⟨f, -, type, -, resolver, -, rfl⟩ := h
    rfl
  | func h hd => exact unmarked_of_funcLines h hd
  | order h =>
    simp only [useListOrderLine, bind_eq_ok_iff, pure_eq_ok_iff] at h
    obtain ⟨order, -, value, -, rfl⟩ := h
    rfl
  | blockOrder h =>
    simp only [useListOrderBlockLine, bind_eq_ok_iff, pure_eq_ok_iff] at h
    obtain ⟨u, -, func, -, block, -, rfl⟩ := h
    rfl

theorem BodyLine.isLine (h : g.BodyLine d) : d.IsLine where
  oneLine := oneLine_render h.inlineDoc
  count_headings number := by
    rw [h.inlineDoc.headings_eq, if_neg (not_isDefinitionOf_of_unmarked h.unmarked)]
    rfl

end Body

section Metadata

theorem inlineDoc_of_metadataListDoc (h : g.metadataListDoc nodes = .ok d) : g.InlineDoc d := by
  simp only [metadataListDoc, bind_eq_ok_iff, pure_eq_ok_iff] at h
  obtain ⟨ds, hds, rfl⟩ := h
  have hall : g.InlineDoc (Doc.commaSep ds) :=
    inlineDoc_commaSep (inlineDoc_of_mapM (fun m d => inlineDoc_of_operandDoc) hds)
  simp +decide [hall]

theorem inlineDoc_of_fieldDoc {field : Field} (hkey : Field.IsKey field.1)
    (hword : ∀ s ∈ field.2.word?, OneLine s) (h : g.fieldDoc field = .ok d) : g.InlineDoc d := by
  obtain ⟨key, value⟩ := field
  have hkey : OneLine key := by
    intro hbreak
    exact absurd (List.all_eq_true.mp hkey.2 _ hbreak) (by decide)
  simp only [fieldDoc, bind_eq_ok_iff, pure_eq_ok_iff] at h
  obtain ⟨inner, hinner, rfl⟩ := h
  have hinner : g.InlineDoc inner := by
    cases value with
    | ref m => exact inlineDoc_of_operandDoc (v := .metadata m) hinner
    | enum s =>
      obtain rfl := pure_eq_ok_iff.mp hinner
      simp [hword s rfl]
    | bool b =>
      obtain rfl := pure_eq_ok_iff.mp hinner
      cases b <;> simp +decide
    | _ =>
      obtain rfl := pure_eq_ok_iff.mp hinner
      simp
  simp +decide [hkey, hinner]

theorem inlineDoc_of_fieldDocs (hwords : ∀ s ∈ n.fields.filterMap (·.2.word?), OneLine s)
    (h : n.fields.mapM g.fieldDoc = .ok ds) : g.InlineDoc (Doc.commaSep ds) := by
  refine inlineDoc_commaSep fun d hd => ?_
  obtain ⟨field, hfield, hd⟩ := exists_of_mem_mapM h hd
  exact inlineDoc_of_fieldDoc (n.keyed_fields field hfield)
    (fun s hs => hwords s (List.mem_filterMap.mpr ⟨field, hfield, hs⟩)) hd

theorem inlineDoc_of_entriesDoc (hwords : ∀ s ∈ n.words, OneLine s)
    (h : g.entriesDoc n = .ok d) : g.InlineDoc d := by
  cases n with
  | expression e =>
    obtain rfl := pure_eq_ok_iff.mp h
    have helements : OneLine (", ".intercalate e.elements) := oneLine_intercalate (by decide) hwords
    simp [helements]
  | generic e =>
    simp only [entriesDoc, bind_eq_ok_iff, pure_eq_ok_iff] at h
    obtain ⟨ds, hds, operands, hoperands, rfl⟩ := h
    have hoperands : g.InlineDoc operands := by
      unfold genericOperandsDoc at hoperands
      split at hoperands
      · obtain rfl := pure_eq_ok_iff.mp hoperands
        exact inlineDoc_nil
      · simp only [bind_eq_ok_iff, pure_eq_ok_iff] at hoperands
        obtain ⟨inner, hinner, rfl⟩ := hoperands
        simp +decide [inlineDoc_of_metadataListDoc hinner]
    exact inlineDoc_append.mpr ⟨inlineDoc_of_fieldDocs hwords hds, hoperands⟩
  | _ =>
    simp only [entriesDoc, bind_eq_ok_iff, pure_eq_ok_iff] at h
    obtain ⟨ds, hds, rfl⟩ := h
    exact inlineDoc_of_fieldDocs hwords hds

theorem oneLine_of_specialName? {name : String} (h : n.specialName? = some name) :
    OneLine name := by
  cases n <;> cases h <;> decide

theorem inlineDoc_of_definitionDoc? (hwords : ∀ s ∈ n.words, OneLine s)
    (h : g.definitionDoc? n = .ok (some d)) : g.InlineDoc d := by
  unfold definitionDoc? at h
  split at h
  case h_1 name hname =>
    simp only [bind_eq_ok_iff, pure_eq_ok_iff, Option.some.injEq] at h
    obtain ⟨inner, hinner, rfl⟩ := h
    simp +decide [oneLine_of_specialName? hname, inlineDoc_of_entriesDoc hwords hinner]
  case h_2 =>
    split at h
    · simp only [bind_eq_ok_iff, pure_eq_ok_iff, Option.some.injEq] at h
      obtain ⟨inner, hinner, rfl⟩ := h
      exact inlineDoc_of_metadataListDoc hinner
    · cases h

theorem isLine_of_definitionLine? (hwords : ∀ s ∈ n.words, OneLine s)
    (h : g.definitionLine? m n = .ok (some d)) : d.IsLine := by
  obtain ⟨d', hd', rfl⟩ := definitionLine?_eq_some h
  have hinline := inlineDoc_of_definitionDoc? hwords hd'
  constructor
  · rw [Doc.render_append]
    exact oneLine_append.mpr ⟨by simp +decide [Doc.render, Piece.render], oneLine_render hinline⟩
  · intro number
    have hheadings : Doc.headings ([.heading m.index] ++ d') = [m.index] := by
      rw [Doc.headings_append, hinline.headings_eq]
      rfl
    have hbegins : isDefinitionOf number (Doc.render ([.heading m.index] ++ d')) ↔
        m.index = number := isDefinitionOf_heading
    simp only [hheadings, hbegins, List.count_singleton, beq_iff_eq]

theorem isLine_namedMetadataLine {x : NamedMetadata} (hname : OneLine x.name)
    (h : ∀ c ∈ x.name.toList.head?, ¬c.isDigit) : (namedMetadataLine x).IsLine where
  oneLine := by
    refine oneLine_join fun s hs => ?_
    obtain ⟨p, hp, rfl⟩ := List.mem_map.mp hs
    simp only [namedMetadataLine, List.mem_append, List.mem_singleton] at hp
    obtain (((rfl | rfl) | rfl) | hp) | rfl := hp
    case inl.inr =>
      obtain rfl | ⟨d, hd, hp⟩ := Doc.mem_join hp
      · exact show OneLine ", " by decide
      · obtain ⟨m, -, rfl⟩ := List.mem_map.mp hd
        obtain rfl := List.mem_singleton.mp hp
        simp +decide [Piece.render]
    case inl.inl.inl.inr => exact hname
    all_goals exact show OneLine _ by decide
  count_headings number := by
    rw [headings_namedMetadataLine, if_neg (not_isDefinitionOf_namedMetadataLine h)]
    rfl

theorem isLine_of_mem_definitionLines (hplain : g.PlainMetadata) (h : g.definitionLines = .ok lines)
    (hd : d ∈ lines) : d.IsLine := by
  obtain ⟨m, n, hn, hline⟩ := exists_of_mem_definitionLines h hd
  exact isLine_of_definitionLine? (hplain.oneLine_word m n hn) hline

end Metadata

section Module

variable {parts : List (List Doc)} {text : String}

theorem isLine_of_mem_moduleParts (hplain : g.PlainMetadata) (h : g.moduleParts r = .ok parts)
    (hd : d ∈ parts.flatten) : d.IsLine := by
  obtain ⟨m, others, named, definitions, -, hflat, hothers, hnamed, hdefinitions⟩ :=
    moduleParts_eq_ok h
  rw [hflat, List.mem_append, List.mem_append] at hd
  obtain hd | hd | hd := hd
  · exact (hothers d hd).isLine
  · obtain ⟨l, x, -, hx, rfl⟩ := exists_of_mem_namedLines hnamed hd
    exact isLine_namedMetadataLine (hplain.oneLine_name l x hx) (hplain.not_isDigit_name l x hx)
  · exact isLine_of_mem_definitionLines hplain hdefinitions hd

/-- The text of a module with plain metadata is lines, and among them as many begin with `!N = ` as
there are definitions of the node `N`. -/
theorem printModule_lines (hplain : g.PlainMetadata) (h : g.printModule r = .ok text) :
    ∃ (doc : Doc) (lines : List String), g.moduleDoc r = .ok doc ∧
      text = String.join (lines.map (· ++ "\n")) ∧ (∀ line ∈ lines, '\n' ∉ line.toList) ∧
      ∀ number, lines.countP (isDefinitionOf number) = doc.headings.count number := by
  obtain ⟨doc, hdoc, htext⟩ := bind_eq_ok_iff.mp h
  obtain rfl := pure_eq_ok_iff.mp htext
  obtain ⟨parts, hparts, hheadings, -⟩ := moduleDoc_eq_ok hdoc
  -- an empty part leaves no trace, neither in the text nor among the lines
  let shown := parts.filter (!·.isEmpty)
  have hshown : shown.flatten = parts.flatten := List.flatten_filter_not_isEmpty
  have hlines : ∀ d ∈ Doc.paragraphs shown, d.IsLine := by
    intro d hd
    obtain rfl | hd := Doc.mem_paragraphs hd
    · exact Doc.isLine_nil
    · exact isLine_of_mem_moduleParts hplain hparts (hshown ▸ hd)
  refine ⟨doc, (Doc.paragraphs shown).map Doc.render, hdoc, ?_, ?_, fun number => ?_⟩
  · rw [moduleDoc, hparts] at hdoc
    obtain rfl := pure_eq_ok_iff.mp hdoc
    rw [List.map_map, Doc.render_append]
    exact Doc.render_paragraphs fun part hpart => by
      simpa using (List.mem_filter.mp hpart).2
  · intro line hline
    obtain ⟨d, hd, rfl⟩ := List.mem_map.mp hline
    exact (hlines d hd).oneLine
  · rw [Doc.countP_isDefinitionOf hlines, Doc.headings_paragraphs, hshown, hheadings]

end Module

end Graph

end IrGraph
