import Mathlib.Algebra.GroupWithZero.Nat
import IrGraph.Print.Text
import IrGraph.Proofs.Print.Printable
import IrGraph.Proofs.Types.Extends

/-! How many lines a printed function has. Each block, instruction, terminator and record of an
order of uses takes one, whatever the names and texts in it are. -/

namespace IrGraph.Graph

variable {g : Graph} {d : Doc} {f : FuncRef} {func : Func} {b : BlockRef} {lines : List Doc}

theorem oneLine_render (h : g.InlineDoc d) : OneLine d.render := by
  refine oneLine_join fun s hs => ?_
  obtain ⟨p, hp, rfl⟩ := List.mem_map.mp hs
  have hp := h p hp
  cases p with
  | text s => exact hp
  | mention n => simp +decide [Piece.render]
  | heading n => exact hp.elim

/-- The lines of a block: its label, its instructions and its terminator. -/
theorem length_blockLines (h : g.blockLines b = .ok lines) :
    ∃ block, g.blocks.get b = .ok block ∧
      lines.length = 1 + block.insts.length + block.term.toList.length := by
  simp only [blockLines, bind_eq_ok_iff, pure_eq_ok_iff] at h
  obtain ⟨block, hblock, insts, hinsts, terms, hterms, rfl⟩ := h
  refine ⟨block, hblock, ?_⟩
  simp only [List.length_append, List.length_map, List.length_singleton, length_of_mapM hinsts,
    length_of_mapM hterms]

theorem length_flatten_blockLines {bs : List BlockRef} {body : List (List Doc)}
    (h : bs.mapM g.blockLines = .ok body) : ∃ blocks, bs.mapM g.blocks.get = .ok blocks ∧
      body.flatten.length = blocks.length + (blocks.map (·.insts.length)).sum +
        blocks.countP (·.term.isSome) := by
  induction bs generalizing body with
  | nil =>
    obtain rfl := pure_eq_ok_iff.mp h
    exact ⟨[], rfl, rfl⟩
  | cons b bs ih =>
    simp only [List.mapM_cons, bind_eq_ok_iff, pure_eq_ok_iff] at h ⊢
    obtain ⟨lines, hlines, rest, hrest, rfl⟩ := h
    obtain ⟨block, hblock, hlength⟩ := length_blockLines hlines
    obtain ⟨blocks, hblocks, hsum⟩ := ih hrest
    refine ⟨block :: blocks, ⟨block, hblock, blocks, hblocks, rfl⟩, ?_⟩
    have hterm : block.term.toList.length = if block.term.isSome then 1 else 0 := by
      cases block.term <;> rfl
    simp only [List.flatten_cons, List.length_append, List.length_cons, List.map_cons,
      List.sum_cons, List.countP_cons, hlength, hsum, hterm]
    omega

theorem length_funcLines (hfunc : g.funcs.get f = .ok func) (h : g.funcLines f = .ok lines) :
    ∃ blocks, func.blocks.mapM g.blocks.get = .ok blocks ∧
      lines.length = if func.blocks = [] then 1 else 2 + blocks.length +
        (blocks.map (·.insts.length)).sum + blocks.countP (·.term.isSome) +
        func.useListOrders.length := by
  rw [funcLines, hfunc, bind_eq_ok_iff] at h
  obtain ⟨_, hsame, h⟩ := h
  obtain rfl := Except.ok.inj hsame
  obtain ⟨head, -, h⟩ := bind_eq_ok_iff.mp h
  split at h
  case isTrue hempty =>
    obtain rfl := pure_eq_ok_iff.mp h
    rw [List.isEmpty_iff.mp hempty]
    exact ⟨[], rfl, rfl⟩
  case isFalse hne =>
    simp only [bind_eq_ok_iff, pure_eq_ok_iff] at h
    obtain ⟨body, hbody, orders, horders, rfl⟩ := h
    obtain ⟨blocks, hblocks, hlength⟩ := length_flatten_blockLines hbody
    refine ⟨blocks, hblocks, ?_⟩
    rw [if_neg fun hnil => hne (List.isEmpty_iff.mpr hnil)]
    simp only [List.length_append, List.length_map, List.length_singleton, hlength,
      length_of_mapM horders]
    omega

/-- A function that can be printed is printed on whole lines, each with a line break at its end: its
head alone, or the head, the closing bracket and one line for each block, instruction, terminator
and order of uses. -/
theorem printFunc_lines {result : TypeRef} {params : List TypeRef} {variadic : Bool}
    (hfunc : g.funcs.get f = .ok func)
    (htype : g.types.get func.type = .ok (.func result params variadic))
    (h : g.Printable (.func f)) :
    ∃ (blocks : List Block) (lines : List String), func.blocks.mapM g.blocks.get = .ok blocks ∧
      g.printFunc f = .ok (String.join (lines.map (· ++ "\n"))) ∧
      (∀ line ∈ lines, '\n' ∉ line.toList) ∧
      lines.length = if func.blocks = [] then 1 else 2 + blocks.length +
        (blocks.map (·.insts.length)).sum + blocks.countP (·.term.isSome) +
        func.useListOrders.length := by
  obtain ⟨docs, hdocs⟩ := (exists_funcLines_iff (Arena.get_eq_ok_iff.mp hfunc)
    (TypeTable.get_eq_ok_iff.mp htype)).mpr fun p hp =>
      (h.of_holds hp).shows (Nat.lt_succ_of_le (level_le_of_holds hp))
  obtain ⟨blocks, hblocks, hlength⟩ := length_funcLines hfunc hdocs
  refine ⟨blocks, docs.map Doc.render, hblocks, ?_, ?_, ?_⟩
  · rw [printFunc, hdocs, List.map_map]
    rfl
  · intro line hline
    obtain ⟨d, hd, rfl⟩ := List.mem_map.mp hline
    exact oneLine_render (inlineDoc_of_funcLines hdocs d hd)
  · rw [List.length_map, hlength]

/-- A list in which each item is there and stands before all that stands in it. -/
theorem printable_of_mem {items : List Item} {p : Item} (hp : p ∈ items)
    (h : ∀ a ∈ items, g.has a ∧ ∀ b ∈ g.itemsIn a, b ∈ items ∧ items.idxOf a < items.idxOf b) :
    g.Printable p := by
  have hreach {q : Item} (hq : Relation.ReflTransGen g.Holds p q) : q ∈ items := by
    induction hq with
    | refl => exact hp
    | tail _ hlast ih => exact ((h _ ih).2 _ hlast).1
  refine ⟨fun q hq => (h q (hreach hq)).1, fun q hq hcycle => ?_⟩
  have hafter {a b : Item} (ha : a ∈ items) (hab : Relation.TransGen g.Holds a b) :
      b ∈ items ∧ items.idxOf a < items.idxOf b := by
    induction hab with
    | single hb => exact (h _ ha).2 _ hb
    | tail _ hlast ih =>
      obtain ⟨hmem, hlt⟩ := (h _ ih.1).2 _ hlast
      exact ⟨hmem, Nat.lt_trans ih.2 hlt⟩
  exact Nat.lt_irrefl _ (hafter (hreach hq) hcycle).2

/-- Line breaks and brackets wherever there is a text, and a function that is only declared. -/
def brokenGraph : Graph :=
  { empty with
    types := TypeTable.initial.internAll
      [.int 8, .array 2 ⟨5⟩, .struct [⟨6⟩] false, .func ⟨0⟩ [⟨4⟩] true]
    funcs := ⟨#[⟨"f\n\x7d", ⟨8⟩, [⟨0⟩], [⟨0⟩], none, none, none, [⟨0⟩]⟩,
      ⟨"g\n", ⟨8⟩, [⟨0⟩], [], none, some (.const ⟨1⟩), none, []⟩]⟩
    params := ⟨#[⟨⟨4⟩, ⟨some "x\n", none⟩, some ⟨0⟩⟩]⟩
    blocks := ⟨#[⟨⟨some "entry\n\x7d", none⟩, [⟨0⟩, ⟨1⟩], some ⟨0⟩, some ⟨0⟩⟩]⟩
    insts := ⟨#[⟨.comment "note\n\tret void\n\x7d", .void, ⟨none, none⟩, some ⟨0⟩⟩,
      ⟨.call ⟨8⟩ (.func ⟨0⟩) [.param ⟨0⟩, .metadata ⟨1⟩]
        [⟨"tag\n", [.const ⟨1⟩, .metadata ⟨0⟩]⟩] false, .void, ⟨none, none⟩, some ⟨0⟩⟩]⟩
    terms := ⟨#[⟨.ret (some (.const ⟨1⟩)), .void, ⟨none, none⟩, some ⟨0⟩⟩]⟩
    consts := ⟨#[⟨.charArray ⟨6⟩ [0x0a, 0x22], ⟨6⟩⟩, ⟨.struct ⟨7⟩ [.const ⟨0⟩], ⟨7⟩⟩]⟩
    metadata := ⟨#[.value (.const ⟨1⟩), .string "a\nb"]⟩
    useListOrders := ⟨#[⟨.param ⟨0⟩, [1, 0]⟩]⟩ }

def brokenItems : List Item :=
  [.func ⟨0⟩, .func ⟨1⟩, .param ⟨0⟩, .block ⟨0⟩, .order ⟨0⟩, .inst ⟨0⟩, .inst ⟨1⟩, .term ⟨0⟩,
    .typed (.metadata ⟨0⟩), .operand (.metadata ⟨0⟩), .typed (.metadata ⟨1⟩),
    .operand (.metadata ⟨1⟩), .typed (.param ⟨0⟩), .operand (.param ⟨0⟩), .operand (.func ⟨0⟩),
    .typed (.const ⟨1⟩), .operand (.const ⟨1⟩), .typed (.const ⟨0⟩), .operand (.const ⟨0⟩),
    .known ⟨8⟩, .known ⟨7⟩, .known ⟨0⟩, .type ⟨8⟩, .type ⟨7⟩, .type ⟨6⟩, .type ⟨5⟩, .type ⟨4⟩,
    .type ⟨3⟩, .type ⟨0⟩]

theorem brokenGraph_printFunc : (∃ lines : List String,
      brokenGraph.printFunc ⟨0⟩ = .ok (String.join (lines.map (· ++ "\n"))) ∧
      (∀ line ∈ lines, '\n' ∉ line.toList) ∧ lines.length = 7) ∧
    ∃ lines : List String,
      brokenGraph.printFunc ⟨1⟩ = .ok (String.join (lines.map (· ++ "\n"))) ∧
      (∀ line ∈ lines, '\n' ∉ line.toList) ∧ lines.length = 1 := by
  have hitems : ∀ a ∈ brokenItems, brokenGraph.has a ∧ ∀ b ∈ brokenGraph.itemsIn a,
      b ∈ brokenItems ∧ brokenItems.idxOf a < brokenItems.idxOf b := by decide
  have hbody : brokenGraph.Printable (.func ⟨0⟩) := printable_of_mem (by decide) hitems
  have hdeclared : brokenGraph.Printable (.func ⟨1⟩) := printable_of_mem (by decide) hitems
  obtain ⟨blocks, lines, hblocks, hlines, hwhole, hlength⟩ := printFunc_lines rfl rfl hbody
  obtain ⟨_, lines', _, hlines', hwhole', hlength'⟩ := printFunc_lines rfl rfl hdeclared
  obtain rfl : _ = blocks := Except.ok.inj hblocks
  exact ⟨⟨lines, hlines, hwhole, hlength⟩, lines', hlines', hwhole', hlength'⟩

end IrGraph.Graph
