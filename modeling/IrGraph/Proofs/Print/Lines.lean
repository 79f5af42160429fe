import IrGraph.Print.Module
import IrGraph.Proofs.Print.Pieces

/-! The lines of functions and modules, apart from metadata. None of them is broken, and each number
on them is that of a metadata node with a definition. -/

namespace IrGraph.Graph

variable {g : Graph} {d e : Doc} {ds : List Doc} {v : Value} {vs : List Value} {s separator : String}

section Closure

@[simp]
theorem inlineDoc_nil : g.InlineDoc [] := by
  simp [InlineDoc]

@[simp]
theorem inlineDoc_text_cons (h : OneLine s) : g.InlineDoc (.text s :: d) ↔ g.InlineDoc d := by
  simp [InlineDoc, Inline, h]

@[simp]
theorem inlineDoc_append : g.InlineDoc (d ++ e) ↔ g.InlineDoc d ∧ g.InlineDoc e := by
  simp only [InlineDoc, List.mem_append, or_imp, forall_and]

theorem inlineDoc_flatten (h : ∀ d ∈ ds, g.InlineDoc d) : g.InlineDoc ds.flatten := by
  intro p hp
  obtain ⟨d, hd, hp⟩ := List.mem_flatten.mp hp
  exact h d hd p hp

theorem inlineDoc_commaSep (h : ∀ d ∈ ds, g.InlineDoc d) : g.InlineDoc (Doc.commaSep ds) := by
  intro p hp
  rcases Doc.mem_join hp with rfl | ⟨d, hd, hp⟩
  · exact show OneLine ", " by decide
  · exact h d hd p hp

theorem inlineDoc_of_mapM {α : Type} {step : α → Except Fault Doc} {l : List α}
    (hstep : ∀ a d, step a = .ok d → g.InlineDoc d) (h : l.mapM step = .ok ds) :
    ∀ d ∈ ds, g.InlineDoc d := by
  intro d hd
  obtain ⟨a, -, ha⟩ := exists_of_mem_mapM h hd
  exact hstep a d ha

theorem inlineDoc_of_typedDoc (h : g.typedDoc v = .ok d) : g.InlineDoc d :=
  inlineDoc_of_from (typed_from (List.mem_singleton_self v) h)

theorem inlineDoc_of_typedListDoc (h : g.typedListDoc vs = .ok d) : g.InlineDoc d :=
  inlineDoc_of_from (typedList_from h)

end Closure

section Instructions

variable {x y : Value} {bundles : List Bundle} {type : TypeRef}

theorem inlineDoc_of_bundlesDoc (h : g.bundlesDoc bundles = .ok d) : g.InlineDoc d := by
  unfold bundlesDoc at h
  split at h
  · obtain rfl := pure_eq_ok_iff.mp h
    exact inlineDoc_nil
  · obtain ⟨ds, hds, h⟩ := bind_eq_ok_iff.mp h
    obtain rfl := pure_eq_ok_iff.mp h
    have hall : g.InlineDoc (Doc.commaSep ds) := by
      refine inlineDoc_commaSep (inlineDoc_of_mapM (fun b d hb => ?_) hds)
      simp only [bind_eq_ok_iff, pure_eq_ok_iff] at hb
      obtain ⟨inner, hinner, rfl⟩ := hb
      simp +decide [inlineDoc_of_typedListDoc hinner]
    simp +decide [hall]

theorem inlineDoc_of_calleeDoc (h : g.calleeDoc type x = .ok d) : g.InlineDoc d := by
  obtain ⟨ty, -, h⟩ := bind_eq_ok_iff.mp h
  split at h
  all_goals
    simp only [bind_eq_ok_iff, pure_eq_ok_iff] at h
    obtain ⟨text, htext, inner, hinner, rfl⟩ := h
    simp +decide [oneLine_of_typeText htext, inlineDoc_of_operandDoc hinner]

theorem inlineDoc_of_callDoc (h : g.callDoc type x vs bundles = .ok d) : g.InlineDoc d := by
  simp only [callDoc, bind_eq_ok_iff, pure_eq_ok_iff] at h
  obtain ⟨callee, hcallee, args, hargs, tail, htail, rfl⟩ := h
  simp +decide [inlineDoc_of_calleeDoc hcallee, inlineDoc_of_typedListDoc hargs,
    inlineDoc_of_bundlesDoc htail]

theorem inlineDoc_of_labelDoc (h : g.labelDoc x = .ok d) : g.InlineDoc d := by
  simp only [labelDoc, bind_eq_ok_iff, pure_eq_ok_iff] at h
  obtain ⟨inner, hinner, rfl⟩ := h
  simp +decide [inlineDoc_of_operandDoc hinner]

theorem inlineDoc_of_labelListDoc (h : g.labelListDoc vs = .ok d) : g.InlineDoc d := by
  simp only [labelListDoc, bind_eq_ok_iff, pure_eq_ok_iff] at h
  obtain ⟨ds, hds, rfl⟩ := h
  have hall : g.InlineDoc (Doc.commaSep ds) :=
    inlineDoc_commaSep (inlineDoc_of_mapM (fun v d => inlineDoc_of_labelDoc) hds)
  simp +decide [hall]

theorem inlineDoc_of_unwindDoc {target : Option Value} (h : g.unwindDoc target = .ok d) :
    g.InlineDoc d := by
  cases target with
  | none =>
    obtain rfl := pure_eq_ok_iff.mp h
    simp +decide
  | some target =>
    simp only [unwindDoc, bind_eq_ok_iff, pure_eq_ok_iff] at h
    obtain ⟨inner, hinner, rfl⟩ := h
    simp +decide [inlineDoc_of_labelDoc hinner]

theorem inlineDoc_of_pairDoc (h : g.pairDoc x y = .ok d) : g.InlineDoc d := by
  simp only [pairDoc, bind_eq_ok_iff, pure_eq_ok_iff] at h
  obtain ⟨dx, hx, dy, hy, rfl⟩ := h
  simp +decide [inlineDoc_of_typedDoc hx, inlineDoc_of_operandDoc hy]

theorem inlineDoc_of_padDoc (h : g.padDoc x vs = .ok d) : g.InlineDoc d := by
  simp only [padDoc, bind_eq_ok_iff, pure_eq_ok_iff] at h
  obtain ⟨scope, hscope, args, hargs, rfl⟩ := h
  simp +decide [inlineDoc_of_operandDoc hscope, inlineDoc_of_typedListDoc hargs]

theorem inlineDoc_of_countDoc {count : Option Value} (h : g.countDoc count = .ok d) :
    g.InlineDoc d := by
  cases count with
  | none =>
    obtain rfl := pure_eq_ok_iff.mp h
    exact inlineDoc_nil
  | some n =>
    simp only [countDoc, bind_eq_ok_iff, pure_eq_ok_iff] at h
    obtain ⟨inner, hinner, rfl⟩ := h
    simp +decide [inlineDoc_of_typedDoc hinner]

theorem oneLine_commentText (text : String) : OneLine (commentText text) := by
  have hchars : '\n' ∉ text.toList.flatMap fun c => if c = '\n' then [';', ' '] else [c] := by
    rw [List.mem_flatMap]
    rintro ⟨c, -, hc⟩
    split at hc
    · exact absurd hc (by decide)
    · rename_i hne
      exact hne (List.mem_singleton.mp hc).symm
  simp +decide [commentText, oneLine_ofList, hchars]

theorem inlineDoc_of_instBody {kind : Instruction} (h : g.instBody kind = .ok d) :
    g.InlineDoc d := by
  cases kind with
  | unary =>
    simp only [instBody, bind_eq_ok_iff, pure_eq_ok_iff] at h
    obtain ⟨inner, hinner, rfl⟩ := h
    simp +decide [inlineDoc_of_typedDoc hinner]
  | binary | bitwise | icmp | fcmp =>
    simp only [instBody, bind_eq_ok_iff, pure_eq_ok_iff] at h
    obtain ⟨inner, hinner, rfl⟩ := h
    simp +decide [inlineDoc_of_pairDoc hinner]
  | extractElement | insertElement | shuffleVector | cmpxchg | atomicrmw | select =>
    simp only [instBody, bind_eq_ok_iff, pure_eq_ok_iff] at h
    obtain ⟨inner, hinner, rfl⟩ := h
    simp +decide [inlineDoc_of_typedListDoc hinner]
  | store source dest isVolatile =>
    simp only [instBody, bind_eq_ok_iff, pure_eq_ok_iff] at h
    obtain ⟨inner, hinner, rfl⟩ := h
    cases isVolatile <;> simp +decide [inlineDoc_of_typedListDoc hinner]
  | extractValue =>
    simp only [instBody, bind_eq_ok_iff, pure_eq_ok_iff] at h
    obtain ⟨inner, hinner, rfl⟩ := h
    simp +decide [inlineDoc_of_typedDoc hinner, oneLine_pathText]
  | insertValue =>
    simp only [instBody, bind_eq_ok_iff, pure_eq_ok_iff] at h
    obtain ⟨inner, hinner, rfl⟩ := h
    simp +decide [inlineDoc_of_typedListDoc hinner, oneLine_pathText]
  | alloca elemType count addrSpace =>
    simp only [instBody, bind_eq_ok_iff, pure_eq_ok_iff] at h
    obtain ⟨text, htext, inner, hinner, rfl⟩ := h
    split <;> simp +decide [oneLine_of_typeText htext, inlineDoc_of_countDoc hinner]
  | load elemType source isVolatile =>
    simp only [instBody, bind_eq_ok_iff, pure_eq_ok_iff] at h
    obtain ⟨text, htext, inner, hinner, rfl⟩ := h
    cases isVolatile <;> simp +decide [oneLine_of_typeText htext, inlineDoc_of_typedDoc hinner]
  | getElementPtr elemType source indices inBounds =>
    simp only [instBody, bind_eq_ok_iff, pure_eq_ok_iff] at h
    obtain ⟨text, htext, inner, hinner, rfl⟩ := h
    cases inBounds <;> simp +decide [oneLine_of_typeText htext, inlineDoc_of_typedListDoc hinner]
  | conversion | vaArg =>
    simp only [instBody, bind_eq_ok_iff, pure_eq_ok_iff] at h
    obtain ⟨inner, hinner, text, htext, rfl⟩ := h
    simp +decide [oneLine_of_typeText htext, inlineDoc_of_typedDoc hinner]
  | phi type incoming =>
    simp only [instBody, bind_eq_ok_iff, pure_eq_ok_iff] at h
    obtain ⟨text, htext, ds, hds, rfl⟩ := h
    have hall : g.InlineDoc (Doc.commaSep ds) := by
      refine inlineDoc_commaSep (inlineDoc_of_mapM (fun e d he => ?_) hds)
      simp only [bind_eq_ok_iff, pure_eq_ok_iff] at he
      obtain ⟨value, hvalue, pred, hpred, rfl⟩ := he
      simp +decide [inlineDoc_of_operandDoc hvalue, inlineDoc_of_operandDoc hpred]
    simp +decide [oneLine_of_typeText htext, hall]
  | call funcType callee args bundles isTail =>
    simp only [instBody, bind_eq_ok_iff, pure_eq_ok_iff] at h
    obtain ⟨inner, hinner, rfl⟩ := h
    cases isTail <;> simp +decide [inlineDoc_of_callDoc hinner]
  | landingpad type cleanup clauses =>
    simp only [instBody, bind_eq_ok_iff, pure_eq_ok_iff] at h
    obtain ⟨text, htext, ds, hds, rfl⟩ := h
    have hall : g.InlineDoc ds.flatten := by
      refine inlineDoc_flatten (inlineDoc_of_mapM (fun c d hc => ?_) hds)
      simp only [bind_eq_ok_iff, pure_eq_ok_iff] at hc
      obtain ⟨value, hvalue, rfl⟩ := hc
      simp +decide [inlineDoc_of_typedDoc hvalue]
    cases cleanup <;> simp +decide [oneLine_of_typeText htext, hall]
  | catchpad | cleanuppad =>
    simp only [instBody, bind_eq_ok_iff, pure_eq_ok_iff] at h
    obtain ⟨inner, hinner, rfl⟩ := h
    simp +decide [inlineDoc_of_padDoc hinner]
  | fence =>
    obtain rfl := pure_eq_ok_iff.mp h
    simp +decide
  | comment text =>
    obtain rfl := pure_eq_ok_iff.mp h
    simp [oneLine_commentText]

theorem inlineDoc_of_resultDoc {ident : Ident} (h : g.resultDoc type ident = .ok d) :
    g.InlineDoc d := by
  obtain ⟨isVoid, -, h⟩ := bind_eq_ok_iff.mp h
  split at h
  all_goals
    obtain rfl := pure_eq_ok_iff.mp h
    simp +decide

theorem inlineDoc_of_instDoc {i : InstRef} (h : g.instDoc i = .ok d) : g.InlineDoc d := by
  obtain ⟨inst, -, h⟩ := bind_eq_ok_iff.mp h
  split at h
  · obtain rfl := pure_eq_ok_iff.mp h
    simp [oneLine_commentText]
  · simp only [bind_eq_ok_iff, pure_eq_ok_iff] at h
    obtain ⟨result, hresult, inner, hinner, rfl⟩ := h
    simp [inlineDoc_of_resultDoc hresult, inlineDoc_of_instBody hinner]

theorem inlineDoc_of_termBody {kind : Terminator} (h : g.termBody kind = .ok d) :
    g.InlineDoc d := by
  cases kind with
  | ret value =>
    cases value with
    | none =>
      obtain rfl := pure_eq_ok_iff.mp h
      simp +decide
    | some x =>
      simp only [termBody, bind_eq_ok_iff, pure_eq_ok_iff] at h
      obtain ⟨inner, hinner, rfl⟩ := h
      simp +decide [inlineDoc_of_typedDoc hinner]
  | br target =>
    simp only [termBody, bind_eq_ok_iff, pure_eq_ok_iff] at h
    obtain ⟨inner, hinner, rfl⟩ := h
    simp +decide [inlineDoc_of_labelDoc hinner]
  | condbr cond targetTrue targetFalse =>
    simp only [termBody, bind_eq_ok_iff, pure_eq_ok_iff] at h
    obtain ⟨inner, hinner, dt, ht, df, hf, rfl⟩ := h
    simp +decide [inlineDoc_of_typedDoc hinner, inlineDoc_of_labelDoc ht, inlineDoc_of_labelDoc hf]
  | switch x targetDefault cases =>
    simp only [termBody, bind_eq_ok_iff, pure_eq_ok_iff] at h
    obtain ⟨inner, hinner, target, htarget, ds, hds, rfl⟩ := h
    have hall : g.InlineDoc ds.flatten := by
      refine inlineDoc_flatten (inlineDoc_of_mapM (fun c d hc => ?_) hds)
      simp only [bind_eq_ok_iff, pure_eq_ok_iff] at hc
      obtain ⟨value, hvalue, target, htarget, rfl⟩ := hc
      simp +decide [inlineDoc_of_typedDoc hvalue, inlineDoc_of_labelDoc htarget]
    simp +decide [inlineDoc_of_typedDoc hinner, inlineDoc_of_labelDoc htarget, hall]
  | indirectbr address validTargets =>
    simp only [termBody, bind_eq_ok_iff, pure_eq_ok_iff] at h
    obtain ⟨inner, hinner, targets, htargets, rfl⟩ := h
    simp +decide [inlineDoc_of_typedDoc hinner, inlineDoc_of_labelListDoc htargets]
  | invoke funcType invokee args normal exception bundles =>
    simp only [termBody, bind_eq_ok_iff, pure_eq_ok_iff] at h
    obtain ⟨inner, hinner, dn, hn, de, he, rfl⟩ := h
    simp +decide [inlineDoc_of_callDoc hinner, inlineDoc_of_labelDoc hn, inlineDoc_of_labelDoc he]
  | callbr funcType callee args normal others bundles =>
    simp only [termBody, bind_eq_ok_iff, pure_eq_ok_iff] at h
    obtain ⟨inner, hinner, dn, hn, dos, hos, rfl⟩ := h
    simp +decide [inlineDoc_of_callDoc hinner, inlineDoc_of_labelDoc hn,
      inlineDoc_of_labelListDoc hos]
  | resume x =>
    simp only [termBody, bind_eq_ok_iff, pure_eq_ok_iff] at h
    obtain ⟨inner, hinner, rfl⟩ := h
    simp +decide [inlineDoc_of_typedDoc hinner]
  | catchswitch scope handlers unwindTarget =>
    simp only [termBody, bind_eq_ok_iff, pure_eq_ok_iff] at h
    obtain ⟨inner, hinner, dh, hh, du, hu, rfl⟩ := h
    simp +decide [inlineDoc_of_operandDoc hinner, inlineDoc_of_labelListDoc hh,
      inlineDoc_of_unwindDoc hu]
  | catchret pad target =>
    simp only [termBody, bind_eq_ok_iff, pure_eq_ok_iff] at h
    obtain ⟨inner, hinner, target, htarget, rfl⟩ := h
    simp +decide [inlineDoc_of_operandDoc hinner, inlineDoc_of_labelDoc htarget]
  | cleanupret pad unwindTarget =>
    simp only [termBody, bind_eq_ok_iff, pure_eq_ok_iff] at h
    obtain ⟨inner, hinner, du, hu, rfl⟩ := h
    simp +decide [inlineDoc_of_operandDoc hinner, inlineDoc_of_unwindDoc hu]
  | unreachable =>
    obtain rfl := pure_eq_ok_iff.mp h
    simp +decide

theorem inlineDoc_of_termDoc {t : TermRef} (h : g.termDoc t = .ok d) : g.InlineDoc d := by
  simp only [termDoc, bind_eq_ok_iff, pure_eq_ok_iff] at h
  obtain ⟨term, -, result, hresult, inner, hinner, rfl⟩ := h
  simp [inlineDoc_of_resultDoc hresult, inlineDoc_of_termBody hinner]

end Instructions

section Functions

variable {func : Func} {f : FuncRef} {b : BlockRef} {lines : List Doc}

theorem oneLine_indicesText (indices : List Nat) : OneLine (indicesText indices) := by
  have hall : ∀ s ∈ indices.map toString, OneLine s := by
    intro s hs
    obtain ⟨i, -, rfl⟩ := List.mem_map.mp hs
    exact oneLine_nat i
  have hcomma : OneLine ", " := by decide
  have hinner := oneLine_intercalate hcomma hall
  simp only [indicesText, oneLine_append, hinner]
  decide

theorem oneLine_blockLabel (ident : Ident) : OneLine (blockLabel ident) := by
  unfold blockLabel
  split <;> simp +decide

theorem inlineDoc_of_useListOrderLine {u : UseListOrderRef} (h : g.useListOrderLine u = .ok d) :
    g.InlineDoc d := by
  simp only [useListOrderLine, bind_eq_ok_iff, pure_eq_ok_iff] at h
  obtain ⟨order, -, inner, hinner, rfl⟩ := h
  simp +decide [inlineDoc_of_typedDoc hinner, oneLine_indicesText]

theorem inlineDoc_of_paramDoc {defined : Bool} {p : ParamRef} (h : g.paramDoc defined p = .ok d) :
    g.InlineDoc d := by
  simp only [paramDoc, bind_eq_ok_iff, pure_eq_ok_iff] at h
  obtain ⟨param, -, text, htext, rfl⟩ := h
  cases defined <;> simp +decide [oneLine_of_typeText htext]

theorem inlineDoc_of_attachedDoc {word : String} {value : Option Value} (hword : OneLine word)
    (h : g.attachedDoc word value = .ok d) : g.InlineDoc d := by
  cases value with
  | none =>
    obtain rfl := pure_eq_ok_iff.mp h
    exact inlineDoc_nil
  | some v =>
    simp only [attachedDoc, bind_eq_ok_iff, pure_eq_ok_iff] at h
    obtain ⟨inner, hinner, rfl⟩ := h
    simp +decide [hword, inlineDoc_of_typedDoc hinner]

theorem inlineDoc_of_headDoc (h : g.headDoc func = .ok d) : g.InlineDoc d := by
  obtain ⟨type, -, h⟩ := bind_eq_ok_iff.mp h
  split at h
  case h_2 => exact (bind_throw_ne_ok h).elim
  case h_1 result params variadic =>
    simp only [bind_eq_ok_iff, pure_eq_ok_iff] at h
    obtain ⟨text, htext, ds, hds, dpre, hpre, dpro, hpro, dper, hper, rfl⟩ := h
    have hparams : g.InlineDoc
        (Doc.commaSep (if variadic then ds ++ [[.text "..."]] else ds)) := by
      refine inlineDoc_commaSep fun d hd => ?_
      have hparam := inlineDoc_of_mapM (fun p d => inlineDoc_of_paramDoc) hds d
      split at hd
      · rcases List.mem_append.mp hd with hd | hd
        · exact hparam hd
        · obtain rfl := List.mem_singleton.mp hd
          simp +decide
      · exact hparam hd
    have hpre := inlineDoc_of_attachedDoc (by decide) hpre
    have hpro := inlineDoc_of_attachedDoc (by decide) hpro
    have hper := inlineDoc_of_attachedDoc (by decide) hper
    split <;> simp +decide [oneLine_of_typeText htext, hparams, hpre, hpro, hper]

theorem inlineDoc_indented (hds : ∀ d ∈ ds, g.InlineDoc d) :
    ∀ d ∈ ds.map indented, g.InlineDoc d := by
  intro d hd
  obtain ⟨inner, hinner, rfl⟩ := List.mem_map.mp hd
  simp +decide [indented, hds inner hinner]

theorem inlineDoc_of_blockLines (h : g.blockLines b = .ok lines) : ∀ d ∈ lines, g.InlineDoc d := by
  simp only [blockLines, bind_eq_ok_iff, pure_eq_ok_iff] at h
  obtain ⟨block, -, insts, hinsts, terms, hterms, rfl⟩ := h
  have hinsts := inlineDoc_indented (inlineDoc_of_mapM (fun i d => inlineDoc_of_instDoc) hinsts)
  have hterms := inlineDoc_indented (inlineDoc_of_mapM (fun t d => inlineDoc_of_termDoc) hterms)
  have hlabel : g.InlineDoc [.text (blockLabel block.ident)] := by simp [oneLine_blockLabel]
  simp only [List.forall_mem_append, List.forall_mem_singleton]
  exact ⟨⟨hlabel, hinsts⟩, hterms⟩

/-- Every line of a printed function. -/
theorem inlineDoc_of_funcLines (h : g.funcLines f = .ok lines) : ∀ d ∈ lines, g.InlineDoc d := by
  simp only [funcLines, bind_eq_ok_iff] at h
  obtain ⟨func, -, head, hhead, h⟩ := h
  have hhead := inlineDoc_of_headDoc hhead
  split at h
  · obtain rfl := pure_eq_ok_iff.mp h
    simpa using hhead
  · simp only [bind_eq_ok_iff, pure_eq_ok_iff] at h
    obtain ⟨body, hbody, orders, horders, rfl⟩ := h
    have horders := inlineDoc_indented
      (inlineDoc_of_mapM (fun u d => inlineDoc_of_useListOrderLine) horders)
    have hbody : ∀ d ∈ body.flatten, g.InlineDoc d := by
      intro d hd
      obtain ⟨blockLines, hmem, hd⟩ := List.mem_flatten.mp hd
      obtain ⟨b, -, hb⟩ := exists_of_mem_mapM hbody hmem
      exact inlineDoc_of_blockLines hb d hd
    have hopen : g.InlineDoc (head ++ [.text " \x7b"]) := by simp +decide [hhead]
    have hclose : g.InlineDoc [.text "\x7d"] := by simp +decide
    simp only [List.forall_mem_append, List.forall_mem_singleton]
    exact ⟨⟨⟨hopen, hbody⟩, horders⟩, hclose⟩

end Functions

section Modules

theorem inlineDoc_of_mem_headerLines {m : Module} (hd : d ∈ headerLines m) : g.InlineDoc d := by
  simp only [headerLines, List.mem_append] at hd
  rcases hd with (hd | hd) | hd
  all_goals
    split at hd
    · obtain rfl := List.mem_singleton.mp hd
      simp +decide
    · cases hd

theorem inlineDoc_of_globalLine {r : GlobalRef} (h : g.globalLine r = .ok d) : g.InlineDoc d := by
  simp only [globalLine, bind_eq_ok_iff] at h
  obtain ⟨v, -, text, htext, h⟩ := h
  have hsort : OneLine (if v.immutable then "constant " else "global ") := by
    split <;> decide
  split at h
  · obtain rfl := pure_eq_ok_iff.mp h
    simp +decide [oneLine_of_typeText htext, hsort]
  · simp only [bind_eq_ok_iff, pure_eq_ok_iff] at h
    obtain ⟨inner, hinner, rfl⟩ := h
    simp +decide [oneLine_of_typeText htext, hsort, inlineDoc_of_operandDoc hinner]

theorem inlineDoc_of_aliasLine {r : AliasRef} (h : g.aliasLine r = .ok d) : g.InlineDoc d := by
  simp only [aliasLine, bind_eq_ok_iff, pure_eq_ok_iff] at h
  obtain ⟨a, -, text, htext, inner, hinner, rfl⟩ := h
  simp +decide [oneLine_of_typeText htext, inlineDoc_of_typedDoc hinner]

theorem inlineDoc_of_ifuncLine {r : IFuncRef} (h : g.ifuncLine r = .ok d) : g.InlineDoc d := by
  simp only [ifuncLine, bind_eq_ok_iff, pure_eq_ok_iff] at h
  obtain ⟨f, -, text, htext, inner, hinner, rfl⟩ := h
  simp +decide [oneLine_of_typeText htext, inlineDoc_of_typedDoc hinner]

theorem inlineDoc_of_useListOrderBlockLine {r : UseListOrderBlockRef}
    (h : g.useListOrderBlockLine r = .ok d) : g.InlineDoc d := by
  simp only [useListOrderBlockLine, bind_eq_ok_iff, pure_eq_ok_iff] at h
  obtain ⟨u, -, func, hfunc, block, hblock, rfl⟩ := h
  simp +decide [inlineDoc_of_operandDoc hfunc, inlineDoc_of_operandDoc hblock, oneLine_indicesText]

end Modules

end IrGraph.Graph
