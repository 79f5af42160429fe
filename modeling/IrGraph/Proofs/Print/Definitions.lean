import IrGraph.Proofs.Edit.Run
import IrGraph.Proofs.Arena
import IrGraph.Proofs.Print.Lines

/-! The metadata nodes that a printed module mentions and those that it defines. Whatever is printed
as an operand mentions only nodes with a definition; a named list mentions all that it lists. What
counts are the pieces that are written as a mention or a heading; where the headings stand in the
text is said by `Graph.printModule_lines`. -/

namespace IrGraph

def FieldValue.ref? : FieldValue → Option MetadataRef
  | .ref m => some m
  | _ => none

namespace MetadataNode

def fieldRefs (n : MetadataNode) : List MetadataRef :=
  n.fields.filterMap (·.2.ref?)

/-- The nodes that a definition lists apart from its fields. -/
def elements : MetadataNode → List MetadataRef
  | tuple nodes => nodes
  | generic d => d.operands
  | _ => []

def listed (n : MetadataNode) : List MetadataRef :=
  n.fieldRefs ++ n.elements

end MetadataNode

def Piece.heading? : Piece → Option Nat
  | .heading n => some n
  | _ => none

def Piece.mention? : Piece → Option Nat
  | .mention n => some n
  | _ => none

namespace Doc

/-- The numbers of the nodes that are defined, one for each definition. -/
def headings (d : Doc) : List Nat :=
  d.filterMap Piece.heading?

/-- The numbers of the nodes that are referred to. -/
def mentions (d : Doc) : List Nat :=
  d.filterMap Piece.mention?

variable {d : Doc} {ds : List Doc} {separator : String} {n : Nat}

theorem headings_append (d e : Doc) : (d ++ e).headings = d.headings ++ e.headings :=
  List.filterMap_append

theorem headings_join : (join separator ds).headings = ds.flatMap headings := by
  induction ds with
  | nil => rfl
  | cons d ds ih =>
    cases ds with
    | nil => simp [join]
    | cons e ds =>
      change (d ++ [Piece.text separator] ++ join separator (e :: ds)).headings = _
      rw [headings_append, headings_append, ih, List.flatMap_cons]
      simp [headings, Piece.heading?]

theorem mem_mentions : n ∈ d.mentions ↔ .mention n ∈ d := by
  rw [mentions, List.mem_filterMap]
  constructor
  · rintro ⟨p, hp, hn⟩
    cases p <;> simp only [Piece.mention?, reduceCtorEq, Option.some.injEq] at hn
    exact hn ▸ hp
  · exact fun h => ⟨_, h, rfl⟩

end Doc

namespace Graph

variable {g : Graph} {d doc : Doc} {lines : List Doc} {m : MetadataRef} {n : MetadataNode}
  {r : ModuleRef} {number : Nat}

section Definition

/-- The nodes as they stand where they are listed, one after the other, and texts around them. -/
inductive Lists (g : Graph) : List MetadataRef → Doc → Prop
  | nil : g.Lists [] []
  | text {nodes : List MetadataRef} {d : Doc} (s : String) (h : g.Lists nodes d) :
    g.Lists nodes (.text s :: d)
  | node {m : MetadataRef} {nodes : List MetadataRef} {dm d : Doc} (hm : g.metadataDoc m = .ok dm)
    (h : g.Lists nodes d) : g.Lists (m :: nodes) (dm ++ d)

variable {nodes nodes' : List MetadataRef} {e : Doc}

theorem Lists.append (h : g.Lists nodes d) (h' : g.Lists nodes' e) :
    g.Lists (nodes ++ nodes') (d ++ e) := by
  induction h with
  | nil => exact h'
  | text s _ ih => exact ih.text s
  | node hm _ ih =>
    rw [List.append_assoc]
    exact ih.node hm

theorem lists_text (s : String) : g.Lists [] [.text s] :=
  Lists.nil.text s

theorem lists_of_metadataDoc (h : g.metadataDoc m = .ok d) : g.Lists [m] d := by
  have hd : g.Lists [m] (d ++ []) := Lists.nil.node h
  rwa [List.append_nil] at hd

theorem Lists.between (before after : String) (h : g.Lists nodes d) :
    g.Lists nodes ([.text before] ++ d ++ [.text after]) := by
  have hd := ((lists_text before).append h).append (lists_text after)
  rwa [List.append_nil] at hd

theorem lists_of_commaSep {α : Type} {step : α → Except Fault Doc} {part : α → List MetadataRef}
    {l : List α} {ds : List Doc} (hstep : ∀ a d, step a = .ok d → g.Lists (part a) d)
    (h : l.mapM step = .ok ds) : g.Lists (l.flatMap part) (Doc.commaSep ds) := by
  induction l generalizing ds with
  | nil =>
    obtain rfl := pure_eq_ok_iff.mp h
    exact Lists.nil
  | cons a l ih =>
    simp only [List.mapM_cons, bind_eq_ok_iff, pure_eq_ok_iff] at h
    obtain ⟨d, hd, ds, hds, rfl⟩ := h
    have hfirst := hstep a d hd
    have hrest := ih hds
    cases l with
    | nil =>
      obtain rfl := pure_eq_ok_iff.mp hds
      rwa [List.flatMap_singleton]
    | cons b l =>
      simp only [List.mapM_cons, bind_eq_ok_iff, pure_eq_ok_iff] at hds
      obtain ⟨d', -, ds', -, rfl⟩ := hds
      -- there is a next entry, so this one ends in a comma
      have hsep := hfirst.append (lists_text ", ")
      rw [List.append_nil] at hsep
      exact hsep.append hrest

theorem lists_of_metadataListDoc (h : g.metadataListDoc nodes = .ok d) : g.Lists nodes d := by
  simp only [metadataListDoc, bind_eq_ok_iff, pure_eq_ok_iff] at h
  obtain ⟨ds, hds, rfl⟩ := h
  have hall := lists_of_commaSep (fun _ _ => lists_of_metadataDoc) hds
  rw [List.flatMap_singleton'] at hall
  exact hall.between _ _

theorem lists_of_fieldDoc {f : Field} (h : g.fieldDoc f = .ok d) :
    g.Lists f.2.ref?.toList d := by
  obtain ⟨key, value⟩ := f
  simp only [fieldDoc, bind_eq_ok_iff, pure_eq_ok_iff] at h
  obtain ⟨inner, hinner, rfl⟩ := h
  have hinner : g.Lists value.ref?.toList inner := by
    cases value with
    | ref m => exact lists_of_metadataDoc hinner
    | bool b =>
      obtain rfl := pure_eq_ok_iff.mp hinner
      cases b <;> exact lists_text _
    | _ =>
      obtain rfl := pure_eq_ok_iff.mp hinner
      exact lists_text _
  exact ((lists_text key).append (lists_text ": ")).append hinner

theorem lists_of_fieldDocs {fields : List Field} {ds : List Doc}
    (h : fields.mapM g.fieldDoc = .ok ds) :
    g.Lists (fields.filterMap (·.2.ref?)) (Doc.commaSep ds) := by
  have hall := lists_of_commaSep (fun _ _ => lists_of_fieldDoc) h
  rwa [← List.filterMap_eq_flatMap_toList] at hall

theorem lists_of_genericOperandsDoc (h : g.genericOperandsDoc nodes = .ok d) :
    g.Lists nodes d := by
  unfold genericOperandsDoc at h
  split at h
  · rename_i hempty
    obtain rfl := pure_eq_ok_iff.mp h
    obtain rfl := List.isEmpty_iff.mp hempty
    exact Lists.nil
  · obtain ⟨inner, hinner, h⟩ := bind_eq_ok_iff.mp h
    obtain rfl := pure_eq_ok_iff.mp h
    exact (lists_of_metadataListDoc hinner).text ", operands: "

theorem lists_of_entriesDoc (hspecial : n.specialName?.isSome) (h : g.entriesDoc n = .ok d) :
    g.Lists n.listed d := by
  have hfields {ds : List Doc} (hds : n.fields.mapM g.fieldDoc = .ok ds) :
      g.Lists n.fieldRefs (Doc.commaSep ds) := lists_of_fieldDocs hds
  cases n with
  | tuple | value | string | null => cases hspecial
  | expression e =>
    obtain rfl := pure_eq_ok_iff.mp h
    exact lists_text _
  | generic e =>
    simp only [entriesDoc, bind_eq_ok_iff, pure_eq_ok_iff] at h
    obtain ⟨ds, hds, operands, hoperands, rfl⟩ := h
    exact (hfields hds).append (lists_of_genericOperandsDoc hoperands)
  | _ =>
    simp only [entriesDoc, bind_eq_ok_iff, pure_eq_ok_iff] at h
    obtain ⟨ds, hds, rfl⟩ := h
    change g.Lists (_ ++ []) _
    rw [List.append_nil]
    exact hfields hds

/-- A definition has the nodes of its fields and after them its elements, in this order and each as
often as it is listed. -/
theorem lists_of_definitionDoc? (h : g.definitionDoc? n = .ok (some d)) : g.Lists n.listed d := by
  unfold definitionDoc? at h
  split at h
  case h_1 name hname =>
    simp only [bind_eq_ok_iff, pure_eq_ok_iff, Option.some.injEq] at h
    obtain ⟨inner, hinner, rfl⟩ := h
    have hentries := lists_of_entriesDoc (by rw [hname]; rfl) hinner
    exact ((hentries.between "(" ")").text name).text "!"
  case h_2 =>
    split at h
    · simp only [bind_eq_ok_iff, pure_eq_ok_iff, Option.some.injEq] at h
      obtain ⟨inner, hinner, rfl⟩ := h
      exact lists_of_metadataListDoc hinner
    · cases h

theorem Lists.text_or_node {p : Piece} (h : g.Lists nodes d) (hp : p ∈ d) :
    (∃ s, p = .text s) ∨ ∃ m ∈ nodes, ∃ dm, g.metadataDoc m = .ok dm ∧ p ∈ dm := by
  induction h with
  | nil => cases hp
  | text s _ ih =>
    rcases List.mem_cons.mp hp with rfl | hp
    · exact .inl ⟨s, rfl⟩
    · exact ih hp
  | @node m nodes dm d hm _ ih =>
    rcases List.mem_append.mp hp with hp | hp
    · exact .inr ⟨m, List.mem_cons_self, dm, hm, hp⟩
    · refine (ih hp).imp_right ?_
      rintro ⟨m', hm', hrest⟩
      exact ⟨m', List.mem_cons_of_mem m hm', hrest⟩

theorem Lists.exists_isInfix (h : g.Lists nodes d) (hm : m ∈ nodes) :
    ∃ dm, g.metadataDoc m = .ok dm ∧ dm <:+: d := by
  induction h with
  | nil => cases hm
  | text s _ ih =>
    obtain ⟨dm, hdm, hin⟩ := ih hm
    exact ⟨dm, hdm, List.infix_cons hin⟩
  | @node m' nodes dm' d hm' _ ih =>
    rcases List.mem_cons.mp hm with rfl | hm
    · exact ⟨dm', hm', (List.prefix_append dm' d).isInfix⟩
    · obtain ⟨dm, hdm, hin⟩ := ih hm
      exact ⟨dm, hdm, hin.trans (List.suffix_append dm' d).isInfix⟩

theorem isSome_of_definitionDoc? {d? : Option Doc} (h : g.definitionDoc? n = .ok d?) :
    d?.isSome = n.isDefined := by
  cases n <;> simp only [definitionDoc?, MetadataNode.specialName?, bind_eq_ok_iff,
    pure_eq_ok_iff] at h
  case value | string | null =>
    subst h
    rfl
  all_goals
    obtain ⟨inner, -, rfl⟩ := h
    rfl

end Definition

section Headings

theorem headings_eq_nil (h : ∀ p ∈ d, p.heading? = none) : d.headings = [] :=
  List.filterMap_eq_nil_iff.mpr h

theorem heading?_of_inline {p : Piece} (h : g.Inline p) : p.heading? = none := by
  cases p with
  | heading => exact h.elim
  | _ => rfl

theorem InlineDoc.headings_eq (h : g.InlineDoc d) : d.headings = [] :=
  headings_eq_nil fun p hp => heading?_of_inline (h p hp)

theorem Lists.inline_or_text {nodes : List MetadataRef} {p : Piece} (h : g.Lists nodes d)
    (hp : p ∈ d) : g.Inline p ∨ ∃ s, p = .text s := by
  rcases h.text_or_node hp with ⟨s, rfl⟩ | ⟨m, -, dm, hdm, hpm⟩
  · exact .inr ⟨s, rfl⟩
  · exact .inl (inlineDoc_of_operandDoc hdm p hpm)

theorem Lists.headings_eq {nodes : List MetadataRef} (h : g.Lists nodes d) : d.headings = [] := by
  refine headings_eq_nil fun p hp => ?_
  rcases h.inline_or_text hp with hp | ⟨s, rfl⟩
  · exact heading?_of_inline hp
  · rfl

theorem headings_namedMetadataLine (x : NamedMetadata) : (namedMetadataLine x).headings = [] := by
  refine headings_eq_nil fun p hp => ?_
  simp only [namedMetadataLine, List.mem_append, List.mem_singleton] at hp
  rcases hp with (((rfl | rfl) | rfl) | hp) | rfl
  case inl.inr =>
    rcases Doc.mem_join hp with rfl | ⟨d, hd, hp⟩
    · rfl
    · obtain ⟨m, -, rfl⟩ := List.mem_map.mp hd
      obtain rfl := List.mem_singleton.mp hp
      rfl
  all_goals rfl

theorem headings_of_definitionLine? {line? : Option Doc} (h : g.definitionLine? m n = .ok line?) :
    line?.toList.flatMap Doc.headings = if n.isDefined then [m.index] else [] := by
  simp only [definitionLine?, bind_eq_ok_iff, pure_eq_ok_iff] at h
  obtain ⟨d?, hd?, rfl⟩ := h
  rw [← isSome_of_definitionDoc? hd?]
  cases d? with
  | none => rfl
  | some d =>
    have hd : d.headings = [] := (lists_of_definitionDoc? hd?).headings_eq
    change Doc.headings ([.heading m.index] ++ d) ++ [] = _
    rw [Doc.headings_append, hd]
    rfl

/-- There is one definition for each node that has one, in the order of the nodes. -/
theorem headings_of_definitionLines (h : g.definitionLines = .ok lines) :
    lines.flatMap Doc.headings = (g.metadata.refs.filter g.defines).map Ref.index := by
  simp only [definitionLines, bind_eq_ok_iff, pure_eq_ok_iff] at h
  obtain ⟨lines?, hlines?, rfl⟩ := h
  -- of any nodes, since the table itself stays as it is while its nodes are gone through
  generalize g.metadata.refs = refs at hlines? ⊢
  induction refs generalizing lines? with
  | nil =>
    obtain rfl := pure_eq_ok_iff.mp hlines?
    rfl
  | cons m refs ih =>
    simp only [List.mapM_cons, bind_eq_ok_iff, pure_eq_ok_iff, Arena.get_eq_ok_iff] at hlines?
    obtain ⟨line?, ⟨n, hn, hline?⟩, rest, hrest, rfl⟩ := hlines?
    have hdefines : g.defines m = n.isDefined := by rw [defines, hn, Option.any_some]
    have hfirst := headings_of_definitionLine? hline?
    rw [← hdefines] at hfirst
    have hsplit : (line? :: rest).filterMap id = line?.toList ++ rest.filterMap id := by
      cases line? <;> rfl
    rw [hsplit, List.flatMap_append, hfirst, ih rest hrest, List.filter_cons]
    split <;> rfl

end Headings

section Module

/-- The lines of a module that are not about metadata. -/
inductive BodyLine (g : Graph) : Doc → Prop
  | header {m : Module} {d : Doc} (h : d ∈ headerLines m) : g.BodyLine d
  | globalVar {r : GlobalRef} {d : Doc} (h : g.globalLine r = .ok d) : g.BodyLine d
  | globalAlias {r : AliasRef} {d : Doc} (h : g.aliasLine r = .ok d) : g.BodyLine d
  | ifunc {r : IFuncRef} {d : Doc} (h : g.ifuncLine r = .ok d) : g.BodyLine d
  | func {f : FuncRef} {lines : List Doc} {d : Doc} (h : g.funcLines f = .ok lines)
      (hd : d ∈ lines) : g.BodyLine d
  | order {u : UseListOrderRef} {d : Doc} (h : g.useListOrderLine u = .ok d) : g.BodyLine d
  | blockOrder {u : UseListOrderBlockRef} {d : Doc} (h : g.useListOrderBlockLine u = .ok d) :
      g.BodyLine d

theorem BodyLine.inlineDoc (h : g.BodyLine d) : g.InlineDoc d := by
  cases h with
  | header h => exact inlineDoc_of_mem_headerLines h
  | globalVar h => exact inlineDoc_of_globalLine h
  | globalAlias h => exact inlineDoc_of_aliasLine h
  | ifunc h => exact inlineDoc_of_ifuncLine h
  | func h hd => exact inlineDoc_of_funcLines h d hd
  | order h => exact inlineDoc_of_useListOrderLine h
  | blockOrder h => exact inlineDoc_of_useListOrderBlockLine h

theorem moduleParts_eq_ok {parts : List (List Doc)} (h : g.moduleParts r = .ok parts) :
    ∃ m others named definitions, g.modules.get? r = some m ∧
      parts.flatten = others ++ (named ++ definitions) ∧ (∀ d ∈ others, g.BodyLine d) ∧
      m.namedMetadata.mapM (fun n => return namedMetadataLine (← g.namedMetadata.get n)) =
        .ok named ∧
      g.definitionLines = .ok definitions := by
  simp only [moduleParts, bind_eq_ok_iff, pure_eq_ok_iff, Arena.get_eq_ok_iff] at h
  obtain ⟨m, hm, globals, hglobals, aliases, haliases, ifuncs, hifuncs, funcs, hfuncs, orders,
    horders, blockOrders, hblockOrders, named, hnamed, definitions, hdefinitions, rfl⟩ := h
  have hbody {α : Type} {step : α → Except Fault Doc} {l : List α} {ds : List Doc}
      (hstep : ∀ {a d}, step a = .ok d → g.BodyLine d) (hds : l.mapM step = .ok ds) :
      ∀ d ∈ ds, g.BodyLine d := by
    intro d hd
    obtain ⟨a, -, ha⟩ := exists_of_mem_mapM hds hd
    exact hstep ha
  have hfuncs : ∀ d ∈ funcs.flatten, g.BodyLine d := by
    intro d hd
    obtain ⟨lines, hlines, hd⟩ := List.mem_flatten.mp hd
    obtain ⟨f, -, hf⟩ := exists_of_mem_mapM hfuncs hlines
    exact .func hf hd
  refine ⟨m, headerLines m ++ (globals ++ (aliases ++ ifuncs)) ++ funcs.flatten ++
    (orders ++ blockOrders), named, definitions, hm, by simp, ?_, hnamed, hdefinitions⟩
  simp only [List.forall_mem_append]
  exact ⟨⟨⟨fun d => .header, hbody .globalVar hglobals, hbody .globalAlias haliases,
    hbody .ifunc hifuncs⟩, hfuncs⟩, hbody .order horders, hbody .blockOrder hblockOrders⟩

theorem moduleDoc_eq_ok (h : g.moduleDoc r = .ok doc) :
    ∃ parts, g.moduleParts r = .ok parts ∧
      doc.headings = parts.flatten.flatMap Doc.headings ∧
      ∀ number ∈ doc.mentions, ∃ d ∈ parts.flatten, number ∈ d.mentions := by
  simp only [moduleDoc, bind_eq_ok_iff, pure_eq_ok_iff] at h
  obtain ⟨parts, hparts, rfl⟩ := h
  refine ⟨parts, hparts, ?_, ?_⟩
  · rw [Doc.headings_append, Doc.headings_join, List.flatMap_map]
    simp only [Doc.headings_join]
    rw [← List.flatten_filter_not_isEmpty, ← List.flatMap_id, List.flatMap_assoc]
    exact List.append_nil _
  · intro number hnumber
    rw [Doc.mem_mentions, List.mem_append, List.mem_singleton] at hnumber
    obtain hnumber | hnumber := hnumber
    · obtain hnumber | ⟨d, hd, hnumber⟩ := Doc.mem_join hnumber
      · cases hnumber
      · obtain ⟨part, hpart, rfl⟩ := List.mem_map.mp hd
        obtain hnumber | ⟨line, hline, hnumber⟩ := Doc.mem_join hnumber
        · cases hnumber
        · exact ⟨line, List.mem_flatten_of_mem (List.mem_filter.mp hpart).1 hline,
            Doc.mem_mentions.mpr hnumber⟩
    · cases hnumber

theorem definitionLine?_eq_some (h : g.definitionLine? m n = .ok (some doc)) :
    ∃ d, g.definitionDoc? n = .ok (some d) ∧ doc = [.heading m.index] ++ d := by
  simp only [definitionLine?, bind_eq_ok_iff, pure_eq_ok_iff] at h
  obtain ⟨d?, hd?, hline⟩ := h
  obtain ⟨d, rfl, rfl⟩ := Option.map_eq_some_iff.mp hline
  exact ⟨d, hd?, rfl⟩

theorem exists_of_mem_definitionLines (h : g.definitionLines = .ok lines) (hd : d ∈ lines) :
    ∃ m n, g.metadata.get? m = some n ∧ g.definitionLine? m n = .ok (some d) := by
  simp only [definitionLines, bind_eq_ok_iff, pure_eq_ok_iff] at h
  obtain ⟨lines?, hlines?, rfl⟩ := h
  obtain ⟨line?, hline?, rfl⟩ := List.mem_filterMap.mp hd
  obtain ⟨m, -, hm⟩ := exists_of_mem_mapM hlines? hline?
  obtain ⟨n, hn, hline⟩ := bind_eq_ok_iff.mp hm
  exact ⟨m, n, Arena.get_eq_ok_iff.mp hn, hline⟩

theorem defines_of_mem_definitionLines (h : g.definitionLines = .ok lines) (hd : d ∈ lines)
    (hnumber : number ∈ d.mentions) : g.defines ⟨number⟩ := by
  obtain ⟨m, n, -, hline⟩ := exists_of_mem_definitionLines h hd
  obtain ⟨d', hd', rfl⟩ := definitionLine?_eq_some hline
  rw [Doc.mem_mentions, List.mem_append, List.mem_singleton] at hnumber
  obtain hnumber | hnumber := hnumber
  · cases hnumber
  · obtain hinline | ⟨s, hs⟩ := (lists_of_definitionDoc? hd').inline_or_text hnumber
    · exact hinline
    · cases hs

theorem exists_of_mem_namedLines {lists : List NamedMetadataRef}
    (h : lists.mapM (fun l => return namedMetadataLine (← g.namedMetadata.get l)) = .ok lines)
    (hd : d ∈ lines) :
    ∃ l x, l ∈ lists ∧ g.namedMetadata.get? l = some x ∧ d = namedMetadataLine x := by
  obtain ⟨l, hl, hline⟩ := exists_of_mem_mapM h hd
  simp only [bind_eq_ok_iff, pure_eq_ok_iff, Arena.get_eq_ok_iff] at hline
  obtain ⟨x, hx, rfl⟩ := hline
  exact ⟨l, x, hl, hx, rfl⟩

theorem mem_nodes_of_mem_mentions {x : NamedMetadata}
    (h : number ∈ (namedMetadataLine x).mentions) : ⟨number⟩ ∈ x.nodes := by
  rw [Doc.mem_mentions] at h
  simp only [namedMetadataLine, List.mem_append, List.mem_singleton] at h
  obtain (((h | h) | h) | h) | h := h
  case inl.inr =>
    obtain h | ⟨d, hd, h⟩ := Doc.mem_join h
    · cases h
    · obtain ⟨m, hm, rfl⟩ := List.mem_map.mp hd
      cases List.mem_singleton.mp h
      exact hm
  all_goals cases h

theorem count_headings (h : doc.headings = (g.metadata.refs.filter g.defines).map Ref.index)
    (number : Nat) : doc.headings.count number = if g.defines ⟨number⟩ then 1 else 0 := by
  have hnodup : doc.headings.Nodup := by
    rw [h]
    refine (g.metadata.nodup_refs.filter _).map fun m m' hm => ?_
    exact congrArg Ref.mk hm
  have hmem : number ∈ doc.headings ↔ g.defines ⟨number⟩ := by
    rw [h, List.mem_map]
    constructor
    · rintro ⟨m, hm, rfl⟩
      exact (List.mem_filter.mp hm).2
    · intro hdef
      obtain ⟨n, hn, -⟩ := defines_iff.mp hdef
      have hrefs := Arena.mem_refs_of_get (Arena.get_eq_ok_iff.mpr hn)
      exact ⟨⟨number⟩, List.mem_filter.mpr ⟨hrefs, hdef⟩, rfl⟩
  split
  · rename_i hdef
    exact List.count_eq_one_of_mem hnodup (hmem.mpr hdef)
  · rename_i hdef
    exact List.count_eq_zero.mpr fun hin => hdef (hmem.mp hin)

/-- A printed module defines every node that has a definition, once. A node that it mentions is one
of those, unless one of its named lists lists a node without a definition. -/
theorem moduleDoc_mentions (h : g.moduleDoc r = .ok doc) :
    doc.headings = (g.metadata.refs.filter g.defines).map Ref.index ∧
    ∀ number ∈ doc.mentions,
      doc.headings.count number = 1 ∨
      doc.headings.count number = 0 ∧ g.defines ⟨number⟩ = false ∧
        ∃ m l x, g.modules.get? r = some m ∧ l ∈ m.namedMetadata ∧
          g.namedMetadata.get? l = some x ∧ ⟨number⟩ ∈ x.nodes := by
  obtain ⟨parts, hparts, hheadings, hmentions⟩ := moduleDoc_eq_ok h
  obtain ⟨m, others, named, definitions, hm, hflat, hothers, hnamed, hdefinitions⟩ :=
    moduleParts_eq_ok hparts
  have hlist : doc.headings = (g.metadata.refs.filter g.defines).map Ref.index := by
    have hnone : others.flatMap Doc.headings = [] :=
      List.flatMap_eq_nil_iff.mpr fun d hd => (hothers d hd).inlineDoc.headings_eq
    have hnone' : named.flatMap Doc.headings = [] := by
      refine List.flatMap_eq_nil_iff.mpr fun d hd => ?_
      obtain ⟨l, x, -, -, rfl⟩ := exists_of_mem_namedLines hnamed hd
      exact headings_namedMetadataLine x
    rw [hheadings, hflat, List.flatMap_append, List.flatMap_append, hnone, hnone',
      headings_of_definitionLines hdefinitions]
    rfl
  refine ⟨hlist, fun number hnumber => ?_⟩
  rw [count_headings hlist]
  by_cases hdef : g.defines ⟨number⟩
  · exact .inl (if_pos hdef)
  · obtain ⟨d, hd, hnumber⟩ := hmentions number hnumber
    rw [hflat, List.mem_append, List.mem_append] at hd
    obtain hd | hd | hd := hd
    · exact absurd ((hothers d hd).inlineDoc _ (Doc.mem_mentions.mp hnumber)) hdef
    · obtain ⟨l, x, hl, hx, rfl⟩ := exists_of_mem_namedLines hnamed hd
      exact .inr ⟨if_neg hdef, Bool.eq_false_iff.mpr hdef, m, l, x, hm, hl, hx,
        mem_nodes_of_mem_mentions hnumber⟩
    · exact absurd (defines_of_mem_definitionLines hdefinitions hd hnumber) hdef

end Module

/-- A tuple of a string, a wrapped integer and itself, and a scope that the initial value of a
global variable refers to; a named list has both. -/
def describedRun : List Edit :=
  [.intern (.int 32), .addInt ⟨5⟩ 7, .addMetadata (.string "a"), .addMetadata (.value (.const ⟨0⟩)),
    .addMetadata (.tuple [⟨0⟩, ⟨1⟩, ⟨2⟩]), .addMetadata (.file ⟨"a.c", "/tmp"⟩),
    .addMetadata (.lexicalBlock ⟨some ⟨2⟩, some ⟨3⟩, 0, 0⟩),
    .addGlobal ⟨"v", ⟨3⟩, true, some (.metadata ⟨4⟩)⟩, .addNamedMetadata ⟨"n", [⟨2⟩, ⟨4⟩]⟩,
    .addModule ⟨none, none, none, [⟨0⟩], [], [], [], [], [], [⟨0⟩]⟩]

def describedGraph : Graph :=
  match empty.run describedRun with
  | .ok g => g
  | .error _ => empty

theorem describedGraph_mentions :
    ∃ doc, describedGraph.moduleDoc ⟨0⟩ = .ok doc ∧ doc.mentions = [4, 2, 4, 2, 2, 3] ∧
      doc.headings = [2, 3, 4] ∧ ∀ number ∈ doc.mentions, doc.headings.count number = 1 := by
  have hdoc : ∃ doc, describedGraph.moduleDoc ⟨0⟩ = .ok doc ∧ doc.mentions = [4, 2, 4, 2, 2, 3] :=
    ⟨_, rfl, rfl⟩
  obtain ⟨doc, hdoc, hnumbers⟩ := hdoc
  obtain ⟨hheadings, hmentions⟩ := moduleDoc_mentions hdoc
  refine ⟨doc, hdoc, hnumbers, hheadings, fun number hnumber => ?_⟩
  obtain hone | ⟨-, hundefined, -⟩ := hmentions number hnumber
  · exact hone
  · rw [hnumbers] at hnumber
    have hdefined : ∀ number ∈ [4, 2, 4, 2, 2, 3], describedGraph.defines ⟨number⟩ = true := by
      decide
    cases hundefined.symm.trans (hdefined number hnumber)

/-- A named list that lists a string. -/
def listedStringRun : List Edit :=
  [.addMetadata (.string "s"), .addNamedMetadata ⟨"n", [⟨0⟩]⟩,
    .addModule ⟨none, none, none, [], [], [], [], [], [], [⟨0⟩]⟩]

def listedStringGraph : Graph :=
  match empty.run listedStringRun with
  | .ok g => g
  | .error _ => empty

/-- The number of the string is printed, and no definition. -/
theorem exists_mention_without_definition :
    ¬∀ (g : Graph) (r : ModuleRef) (doc : Doc), g.moduleDoc r = .ok doc →
      ∀ number ∈ doc.mentions, doc.headings.count number = 1 := by
  intro h
  have hdoc : ∃ doc, listedStringGraph.moduleDoc ⟨0⟩ = .ok doc ∧ doc.mentions = [0] ∧
      doc.headings = [] := ⟨_, rfl, rfl, rfl⟩
  obtain ⟨doc, hdoc, hmentions, hheadings⟩ := hdoc
  have hone := h listedStringGraph ⟨0⟩ doc hdoc 0 (by simp [hmentions])
  rw [hheadings] at hone
  cases hone

end Graph

end IrGraph
