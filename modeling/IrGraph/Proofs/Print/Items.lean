import IrGraph.Print.Function
import IrGraph.Proofs.Steps

/-! What is looked up to print a function: each item with the items that stand directly in it. An
item can be printed when it is there and the items in it can. -/

namespace IrGraph

/-- Something that a line or a part of one is made for. -/
inductive Item
  /-- A type that is written out. -/
  | type (r : TypeRef)
  /-- A type that is looked at. -/
  | known (r : TypeRef)
  /-- An operand behind its type. -/
  | typed (v : Value)
  | operand (v : Value)
  | param (p : ParamRef)
  | inst (i : InstRef)
  | term (t : TermRef)
  | order (u : UseListOrderRef)
  | block (b : BlockRef)
  | func (f : FuncRef)
  deriving DecidableEq, Repr

def ConstExpr.items : ConstExpr → List Item
  | getElementPtr elemType source indices _ => .type elemType :: (source :: indices).map .typed
  | conversion _ x target => [.typed x, .type target]
  | e => e.parts.map .typed

/-- A literal needs its type to tell truth values from numbers, a structure to tell whether it is
packed. -/
def Constant.items : Constant → List Item
  | int type _ => [.known type]
  | struct type fields => .known type :: fields.map .typed
  | array _ elems | vector _ elems => elems.map .typed
  | blockAddress func block => [.operand func, .operand block]
  | expr e => e.items
  | _ => []

/-- The type of a callee that is written out: the result will do unless it is variadic. -/
def TypeTable.calleeType (t : TypeTable) (funcType : TypeRef) : TypeRef :=
  match t.get? funcType with
  | some (.func result _ false) => result
  | _ => funcType

def callItems (t : TypeTable) (funcType : TypeRef) (callee : Value) (args : List Value)
    (bundles : List Bundle) : List Item :=
  .known funcType :: .type (t.calleeType funcType) :: .operand callee ::
    (args.map .typed ++ bundles.flatMap (·.inputs.map .typed))

def Instruction.items (t : TypeTable) : Instruction → List Item
  | unary _ x | extractValue x _ => [.typed x]
  | binary _ x y | bitwise _ x y | icmp _ x y | fcmp _ x y => [.typed x, .operand y]
  | extractElement x index => [.typed x, .typed index]
  | insertElement x elem index => [.typed x, .typed elem, .typed index]
  | shuffleVector x y mask => [.typed x, .typed y, .typed mask]
  | insertValue x elem _ => [.typed x, .typed elem]
  | alloca elemType count _ => .type elemType :: count.toList.map .typed
  | load elemType source _ => [.type elemType, .typed source]
  | store source dest _ => [.typed source, .typed dest]
  | cmpxchg pointer expected replacement _ _ =>
    [.typed pointer, .typed expected, .typed replacement]
  | atomicrmw _ dest x _ => [.typed dest, .typed x]
  | getElementPtr elemType source indices _ => .type elemType :: (source :: indices).map .typed
  | conversion _ x target => [.typed x, .type target]
  | phi type incoming => .type type :: incoming.flatMap fun e => [.operand e.value, .operand e.pred]
  | select cond x y => [.typed cond, .typed x, .typed y]
  | call funcType callee args bundles _ => callItems t funcType callee args bundles
  | vaArg list type => [.typed list, .type type]
  | landingpad type _ clauses => .type type :: clauses.map (.typed ·.value)
  | catchpad scope args | cleanuppad scope args => .operand scope :: args.map .typed
  | fence _ | comment _ => []

def Terminator.items (t : TypeTable) : Terminator → List Item
  | ret x => x.toList.map .typed
  | br target => [.operand target]
  | condbr cond targetTrue targetFalse =>
    [.typed cond, .operand targetTrue, .operand targetFalse]
  | switch x targetDefault cases =>
    .typed x :: .operand targetDefault :: cases.flatMap fun c => [.typed c.value, .operand c.target]
  | indirectbr address validTargets => .typed address :: validTargets.map .operand
  | invoke funcType invokee args normal exception bundles =>
    callItems t funcType invokee args bundles ++ [.operand normal, .operand exception]
  | callbr funcType callee args normal others bundles =>
    callItems t funcType callee args bundles ++ .operand normal :: others.map .operand
  | resume x => [.typed x]
  | catchswitch scope handlers unwindTarget =>
    .operand scope :: (handlers.map .operand ++ unwindTarget.toList.map .operand)
  | catchret pad target => [.operand pad, .operand target]
  | cleanupret pad unwindTarget => .operand pad :: unwindTarget.toList.map .operand
  | unreachable => []

/-- A note is printed without a look at its type. -/
def Inst.items (t : TypeTable) (x : Inst) : List Item :=
  match x.kind with
  | .comment _ => []
  | kind => .known x.type :: kind.items t

def Term.items (t : TypeTable) (x : Term) : List Item :=
  .known x.type :: x.kind.items t

def Block.items (x : Block) : List Item :=
  x.insts.map .inst ++ x.term.toList.map .term

def Func.items (t : TypeTable) (x : Func) : List Item :=
  let head : List Item := match t.get? x.type with
    | some (.func result _ _) => [.type result]
    | _ => []
  let attached := x.prefixData.toList ++ x.prologueData.toList ++ x.personality.toList
  let body : List Item :=
    if x.blocks.isEmpty then [] else x.blocks.map .block ++ x.useListOrders.map .order
  head ++ x.params.map .param ++ attached.map .typed ++ body

namespace Graph

variable {g : Graph} {operand : Printer} {v : Value} {vs : List Value} {r : TypeRef}

/-- Whether what an item refers to is there. -/
def has (g : Graph) : Item → Bool
  | .type r | .known r => (g.types.get? r).isSome
  | .typed _ => true
  | .operand v =>
    match v with
    | .const r => (g.consts.get? r).isSome
    | .globalVar r => (g.globals.get? r).isSome
    | .func r => (g.funcs.get? r).isSome
    | .alias r => (g.aliases.get? r).isSome
    | .ifunc r => (g.ifuncs.get? r).isSome
    | .param r => (g.params.get? r).isSome
    | .block r => (g.blocks.get? r).isSome
    | .inst r => (g.insts.get? r).isSome
    | .term r => (g.terms.get? r).isSome
    | .metadata r => (g.metadata.get? r).isSome
  | .param p => (g.params.get? p).isSome
  | .inst i => (g.insts.get? i).isSome
  | .term t => (g.terms.get? t).isSome
  | .order u => (g.useListOrders.get? u).isSome
  | .block b => (g.blocks.get? b).isSome
  | .func f => (g.funcs.get? f).isSome

/-- What stands directly in an item. -/
def itemsIn (g : Graph) : Item → List Item
  | .type r => (g.types.get? r).elim [] (·.components.map .type)
  | .known _ => []
  | .typed v => .operand v :: (g.valueType v).toOption.toList.map .type
  | .operand v =>
    match v with
    | .const c => (g.consts.get? c).elim [] (·.data.items)
    | .metadata m =>
      match g.metadata.get? m with
      | some (.value w) => [.typed w]
      | _ => []
    | _ => []
  | .param p => (g.params.get? p).elim [] fun x => [.type x.type]
  | .inst i => (g.insts.get? i).elim [] (·.items g.types)
  | .term t => (g.terms.get? t).elim [] (·.items g.types)
  | .order u => (g.useListOrders.get? u).elim [] fun x => [.typed x.value]
  | .block b => (g.blocks.get? b).elim [] Block.items
  | .func f => (g.funcs.get? f).elim [] (·.items g.types)

/-- That an item can be printed when operands are printed as `operand` says. -/
def Shows (g : Graph) (operand : Printer) : Item → Prop
  | .type r => ∃ s, g.types.text r = .ok s
  | .known r => ∃ type, g.types.get r = .ok type
  | .typed v => ∃ d, g.typed operand v = .ok d
  | .operand v => ∃ d, operand v = .ok d
  | .param p => ∃ d, g.paramDoc true p = .ok d
  | .inst i => ∃ d, g.instDoc i = .ok d
  | .term t => ∃ d, g.termDoc t = .ok d
  | .order u => ∃ d, g.useListOrderLine u = .ok d
  | .block b => ∃ lines, g.blockLines b = .ok lines
  | .func f => ∃ lines, g.funcLines f = .ok lines

section Operands

theorem exists_typedList_iff :
    (∃ d, g.typedList operand vs = .ok d) ↔ ∀ v ∈ vs, ∃ d, g.typed operand v = .ok d := by
  simp only [typedList, exists_bind_eq_ok_iff, exists_pure_eq_ok, and_true, exists_mapM_eq_ok_iff]

theorem exists_exprDoc_iff {e : ConstExpr} :
    (∃ d, g.exprDoc operand e = .ok d) ↔ ∀ p ∈ e.items, g.Shows operand p := by
  cases e <;> simp only [exprDoc, exists_bind_eq_ok_iff, exists_pure_eq_ok, and_true,
    exists_typedList_iff, exists_and_right, ConstExpr.items, ConstExpr.parts, List.forall_mem_map,
    List.forall_mem_cons, Shows, List.map_cons, List.map_nil, List.not_mem_nil, false_implies,
    implies_true]

theorem exists_intBits?_iff {t : TypeTable} :
    (∃ bits, t.intBits? r = .ok bits) ↔ ∃ type, t.get r = .ok type := by
  rw [TypeTable.intBits?, exists_bind_eq_ok_iff]
  refine exists_congr fun type => and_iff_left ?_
  split <;> exact exists_pure_eq_ok _

theorem exists_intText_iff {value : BitVec 128} :
    (∃ s, g.intText r value = .ok s) ↔ ∃ type, g.types.get r = .ok type := by
  rw [intText, exists_bind_eq_ok_iff, ← exists_intBits?_iff]
  refine exists_congr fun bits => and_iff_left ?_
  split <;> exact exists_pure_eq_ok _

theorem exists_constantDoc_iff {c : Constant} :
    (∃ d, g.constantDoc operand c = .ok d) ↔ ∀ p ∈ c.items, g.Shows operand p := by
  cases c with
  | expr e => exact exists_exprDoc_iff
  | int type value =>
    simp only [constantDoc, exists_bind_eq_ok_iff, exists_pure_eq_ok, and_true, exists_intText_iff,
      Constant.items, List.forall_mem_singleton, Shows]
  | _ => simp only [constantDoc, exists_bind_eq_ok_iff, exists_pure_eq_ok, and_true,
    exists_typedList_iff, exists_and_right, Constant.items, List.forall_mem_map,
    List.forall_mem_cons, Shows, List.not_mem_nil, false_implies, implies_true]

end Operands

section Instructions

variable {type : TypeRef} {x y : Value} {bundles : List Bundle}

theorem exists_bundlesDoc_iff : (∃ d, g.bundlesDoc bundles = .ok d) ↔
    ∀ b ∈ bundles, ∀ v ∈ b.inputs, g.Shows g.operandDoc (.typed v) := by
  unfold bundlesDoc
  split
  case isTrue hempty =>
    obtain rfl := List.isEmpty_iff.mp hempty
    simp only [exists_pure_eq_ok, List.not_mem_nil, false_implies, implies_true]
  case isFalse =>
    simp only [exists_bind_eq_ok_iff, exists_pure_eq_ok, and_true, exists_mapM_eq_ok_iff,
      typedListDoc, exists_typedList_iff, Shows]

theorem exists_calleeDoc_iff : (∃ d, g.calleeDoc type x = .ok d) ↔
    g.Shows g.operandDoc (.known type) ∧ g.Shows g.operandDoc (.type (g.types.calleeType type)) ∧
      g.Shows g.operandDoc (.operand x) := by
  simp only [Shows]
  rw [calleeDoc, exists_bind_eq_ok_iff, ← exists_and_right]
  refine exists_congr fun ty => and_congr_right fun hty => ?_
  rw [TypeTable.calleeType, TypeTable.get_eq_ok_iff.mp hty]
  cases ty with
  | func result params variadic => cases variadic <;> simp only [exists_bind_eq_ok_iff,
      exists_pure_eq_ok, and_true, exists_and_right]
  | _ => simp only [exists_bind_eq_ok_iff, exists_pure_eq_ok, and_true, exists_and_right]

theorem exists_callDoc_iff : (∃ d, g.callDoc type x vs bundles = .ok d) ↔
    ∀ p ∈ callItems g.types type x vs bundles, g.Shows g.operandDoc p := by
  simp only [callDoc, exists_bind_eq_ok_iff, exists_pure_eq_ok, and_true, exists_and_right,
    exists_calleeDoc_iff, exists_bundlesDoc_iff, typedListDoc, exists_typedList_iff, callItems,
    List.forall_mem_cons, List.forall_mem_append, List.forall_mem_map, List.forall_mem_flatMap,
    Shows, and_assoc]

theorem exists_countDoc_iff {count : Option Value} : (∃ d, g.countDoc count = .ok d) ↔
    ∀ v ∈ count.toList, g.Shows g.operandDoc (.typed v) := by
  cases count <;> simp only [countDoc, exists_bind_eq_ok_iff, exists_pure_eq_ok, and_true, typedDoc,
    Option.toList_none, Option.toList_some, List.not_mem_nil, List.forall_mem_singleton,
    false_implies, implies_true, Shows]

theorem exists_instBody_iff {kind : Instruction} : (∃ d, g.instBody kind = .ok d) ↔
    ∀ p ∈ kind.items g.types, g.Shows g.operandDoc p := by
  cases kind <;> simp only [instBody, exists_bind_eq_ok_iff, exists_pure_eq_ok, and_true,
    exists_and_right, typedDoc, pairDoc, padDoc, typedListDoc, exists_typedList_iff,
    exists_callDoc_iff, exists_countDoc_iff, exists_mapM_eq_ok_iff, Instruction.items,
    List.forall_mem_cons, List.forall_mem_map, List.forall_mem_flatMap, List.not_mem_nil,
    false_implies, implies_true, Shows]

theorem exists_unwindDoc_iff {target : Option Value} : (∃ d, g.unwindDoc target = .ok d) ↔
    ∀ v ∈ target.toList, g.Shows g.operandDoc (.operand v) := by
  cases target <;> simp only [unwindDoc, labelDoc, exists_bind_eq_ok_iff, exists_pure_eq_ok,
    and_true, Option.toList_none, Option.toList_some, List.not_mem_nil, List.forall_mem_singleton,
    false_implies, implies_true, Shows]

theorem exists_labelListDoc_iff : (∃ d, g.labelListDoc vs = .ok d) ↔
    ∀ v ∈ vs, g.Shows g.operandDoc (.operand v) := by
  simp only [labelListDoc, labelDoc, exists_bind_eq_ok_iff, exists_pure_eq_ok, and_true,
    exists_mapM_eq_ok_iff, Shows]

theorem exists_termBody_iff {kind : Terminator} : (∃ d, g.termBody kind = .ok d) ↔
    ∀ p ∈ kind.items g.types, g.Shows g.operandDoc p := by
  cases kind with
  | ret x => cases x <;> simp only [termBody, exists_bind_eq_ok_iff, exists_pure_eq_ok, and_true,
      typedDoc, Terminator.items, Option.toList_none, Option.toList_some, List.map_nil,
      List.map_cons, List.not_mem_nil, List.forall_mem_singleton, false_implies, implies_true, Shows]
  | _ => simp only [termBody, exists_bind_eq_ok_iff, exists_pure_eq_ok, and_true,
    exists_and_right, typedDoc, labelDoc, exists_callDoc_iff, exists_unwindDoc_iff,
    exists_labelListDoc_iff, exists_mapM_eq_ok_iff, Terminator.items, List.forall_mem_cons,
    List.forall_mem_append, List.forall_mem_map, List.forall_mem_flatMap, Shows, List.not_mem_nil,
    false_implies, implies_true]

end Instructions

section Entities

variable {i : InstRef} {t : TermRef} {p : ParamRef} {u : UseListOrderRef} {b : BlockRef}

theorem isSome_and_forall_mem_elim_iff {α : Type} {x? : Option α} {f : α → List Item}
    {P : Item → Prop} :
    (x?.isSome ∧ ∀ p ∈ x?.elim [] f, P p) ↔ ∃ x, x? = some x ∧ ∀ p ∈ f x, P p := by
  cases x? <;> simp

theorem exists_typed_iff : (∃ d, g.typed operand v = .ok d) ↔ ∃ type,
    g.valueType v = .ok type ∧ (∃ s, g.types.text type = .ok s) ∧ ∃ d, operand v = .ok d := by
  simp only [typed, exists_bind_eq_ok_iff, exists_pure_eq_ok, and_true, exists_and_right]

theorem exists_operandWithin_succ_iff {depth : Nat} :
    (∃ d, g.operandWithin (depth + 1) v = .ok d) ↔ g.has (.operand v) ∧
      ∀ p ∈ g.itemsIn (.operand v), g.Shows (g.operandWithin depth) p := by
  cases v with
  | const c =>
    rw [has, itemsIn, isSome_and_forall_mem_elim_iff, operandWithin, exists_bind_eq_ok_iff]
    simp only [Arena.get_eq_ok_iff, exists_constantDoc_iff]
  | metadata m =>
    rw [has, itemsIn, operandWithin, exists_bind_eq_ok_iff]
    simp only [Arena.get_eq_ok_iff]
    cases g.metadata.get? m with
    | none => simp
    | some n => cases n <;> simp [Shows, exists_pure_eq_ok]
  | _ =>
    simp only [operandWithin, has, itemsIn, localIdent?, globalName?, exists_bind_eq_ok_iff,
      exists_pure_eq_ok, and_true, Arena.get_eq_ok_iff, Option.isSome_iff_exists, List.not_mem_nil,
      false_implies, implies_true]

theorem exists_resultDoc_iff {type : TypeRef} {ident : Ident} :
    (∃ d, g.resultDoc type ident = .ok d) ↔ g.Shows g.operandDoc (.known type) := by
  have hpure (isVoid : Bool) : ∃ d, (if isVoid then return [] else
      return "%" ++ ident.text ++ " = " : Except Fault Doc) = .ok d := by
    split <;> exact exists_pure_eq_ok _
  simp only [resultDoc, TypeTable.isVoid, exists_bind_eq_ok_iff, exists_pure_eq_ok, and_true,
    hpure, Shows]

theorem exists_instDoc_iff : (∃ d, g.instDoc i = .ok d) ↔
    g.has (.inst i) ∧ ∀ p ∈ g.itemsIn (.inst i), g.Shows g.operandDoc p := by
  rw [has, itemsIn, isSome_and_forall_mem_elim_iff, instDoc, exists_bind_eq_ok_iff]
  simp only [Arena.get_eq_ok_iff]
  refine exists_congr fun x => and_congr_right fun _ => ?_
  rw [Inst.items]
  cases x.kind <;> simp only [exists_bind_eq_ok_iff, exists_pure_eq_ok, and_true,
    exists_and_right, exists_resultDoc_iff, exists_instBody_iff, List.forall_mem_cons,
    List.not_mem_nil, false_implies, implies_true]

theorem exists_termDoc_iff : (∃ d, g.termDoc t = .ok d) ↔
    g.has (.term t) ∧ ∀ p ∈ g.itemsIn (.term t), g.Shows g.operandDoc p := by
  rw [has, itemsIn, isSome_and_forall_mem_elim_iff, termDoc, exists_bind_eq_ok_iff]
  simp only [Arena.get_eq_ok_iff]
  refine exists_congr fun x => and_congr_right fun _ => ?_
  simp only [Term.items, exists_bind_eq_ok_iff, exists_pure_eq_ok, and_true, exists_and_right,
    exists_resultDoc_iff, exists_termBody_iff, List.forall_mem_cons]

theorem exists_paramDoc_iff {defined : Bool} : (∃ d, g.paramDoc defined p = .ok d) ↔
    g.has (.param p) ∧ ∀ q ∈ g.itemsIn (.param p), g.Shows g.operandDoc q := by
  rw [has, itemsIn, isSome_and_forall_mem_elim_iff]
  simp only [paramDoc, exists_bind_eq_ok_iff, exists_pure_eq_ok, and_true, Arena.get_eq_ok_iff,
    List.forall_mem_singleton, Shows]

theorem exists_useListOrderLine_iff : (∃ d, g.useListOrderLine u = .ok d) ↔
    g.has (.order u) ∧ ∀ p ∈ g.itemsIn (.order u), g.Shows g.operandDoc p := by
  rw [has, itemsIn, isSome_and_forall_mem_elim_iff]
  simp only [useListOrderLine, typedDoc, exists_bind_eq_ok_iff, exists_pure_eq_ok, and_true,
    Arena.get_eq_ok_iff, List.forall_mem_singleton, Shows]

theorem exists_blockLines_iff : (∃ lines, g.blockLines b = .ok lines) ↔
    g.has (.block b) ∧ ∀ p ∈ g.itemsIn (.block b), g.Shows g.operandDoc p := by
  rw [has, itemsIn, isSome_and_forall_mem_elim_iff]
  simp only [blockLines, exists_bind_eq_ok_iff, exists_pure_eq_ok, and_true, exists_and_right,
    Arena.get_eq_ok_iff, exists_mapM_eq_ok_iff, Block.items, List.forall_mem_append,
    List.forall_mem_map, Shows]

theorem exists_attachedDoc_iff {word : String} {value : Option Value} :
    (∃ d, g.attachedDoc word value = .ok d) ↔
      ∀ v ∈ value.toList, g.Shows g.operandDoc (.typed v) := by
  cases value <;> simp only [attachedDoc, typedDoc, exists_bind_eq_ok_iff, exists_pure_eq_ok,
    and_true, Option.toList_none, Option.toList_some, List.not_mem_nil, List.forall_mem_singleton,
    false_implies, implies_true, Shows]

theorem exists_headDoc_iff {func : Func} {result : TypeRef} {params : List TypeRef}
    {variadic : Bool} (htype : g.types.get func.type = .ok (.func result params variadic)) :
    (∃ d, g.headDoc func = .ok d) ↔ ((∃ s, g.types.text result = .ok s) ∧
      ∀ p ∈ func.params, g.Shows g.operandDoc (.param p)) ∧
      ∀ v ∈ func.prefixData.toList ++ func.prologueData.toList ++ func.personality.toList,
        g.Shows g.operandDoc (.typed v) := by
  have hparam (p : ParamRef) {defined : Bool} :
      (∃ d, g.paramDoc defined p = .ok d) ↔ g.Shows g.operandDoc (.param p) :=
    exists_paramDoc_iff.trans exists_paramDoc_iff.symm
  rw [headDoc, exists_bind_eq_ok_iff, htype]
  simp only [Except.ok.injEq, exists_eq_left', exists_bind_eq_ok_iff, exists_pure_eq_ok, and_true,
    exists_and_right, exists_mapM_eq_ok_iff, hparam, exists_attachedDoc_iff,
    List.forall_mem_append, and_assoc]

theorem exists_funcLines_iff {f : FuncRef} {func : Func} {result : TypeRef}
    {params : List TypeRef} {variadic : Bool} (hfunc : g.funcs.get? f = some func)
    (htype : g.types.get? func.type = some (.func result params variadic)) :
    (∃ lines, g.funcLines f = .ok lines) ↔ ∀ p ∈ g.itemsIn (.func f), g.Shows g.operandDoc p := by
  have hhead := exists_headDoc_iff (TypeTable.get_eq_ok_iff.mpr htype)
  rw [funcLines, exists_bind_eq_ok_iff, Arena.get_eq_ok_iff.mpr hfunc]
  simp only [Except.ok.injEq, exists_eq_left', itemsIn, hfunc, Option.elim_some, Func.items, htype]
  cases func.blocks.isEmpty <;> simp only [Bool.false_eq_true, if_false, if_true,
    exists_bind_eq_ok_iff, exists_pure_eq_ok, and_true, exists_and_right, hhead,
    exists_mapM_eq_ok_iff, List.forall_mem_append, List.forall_mem_singleton, List.forall_mem_map,
    List.not_mem_nil, false_implies, implies_true, and_assoc, Shows]

end Entities

end Graph

end IrGraph
