import IrGraph.Graph.Attach
import IrGraph.Graph.Fold
import IrGraph.Graph.Literal
import IrGraph.Graph.Numbering
import IrGraph.Graph.Use
import IrGraph.Proofs.Steps

/-! Runs: the operations that change a graph, as data, and what they make of it one after another.
A run ends with a graph when no operation is refused. -/

namespace IrGraph

inductive Edit
  | intern (type : IrType)
  | addModule (m : Module)
  | addGlobal (v : GlobalVar)
  | addAlias (a : GlobalAlias)
  | addIFunc (f : IFunc)
  | addUseListOrder (u : UseListOrder)
  | addUseListOrderBlock (u : UseListOrderBlock)
  | addMetadata (n : MetadataNode)
  | addNamedMetadata (n : NamedMetadata)
  | addParam (type : TypeRef) (ident : Ident)
  | addBlock (ident : Ident)
  | addInst (kind : Instruction) (ident : Ident)
  | addComment (text : String)
  | addTerm (kind : Terminator) (ident : Ident)
  | addConst (data : Constant)
  | addInt (type : TypeRef) (value : Int)
  | addZero (type : TypeRef)
  | addCString (text : String)
  | addPascalString (text : String)
  | addFunc (f : Func)
  | pushBlock (f : FuncRef) (b : BlockRef)
  | pushInst (b : BlockRef) (i : InstRef)
  | insertInstBefore (b : BlockRef) (before i : InstRef)
  | removeInst (b : BlockRef) (i : InstRef)
  | setTerm (b : BlockRef) (t : TermRef)
  | replaceUse (u : Use) (v : Value)
  | setInstKind (i : InstRef) (kind : Instruction)
  | setTermKind (t : TermRef) (kind : Terminator)
  | setMetadata (m : MetadataRef) (node : MetadataNode)
  | rename (v : Value) (name : Option String)
  | assignIds (f : FuncRef)
  | resetNames (f : FuncRef)
  | refreshType (i : InstRef)
  | refreshTypes (f : FuncRef)
  | simplify (c : ConstRef)
  deriving DecidableEq, Repr

/-- Types that an instruction names besides its operands. -/
def Instruction.types : Instruction → List TypeRef
  | .alloca type _ _ | .load type _ _ | .getElementPtr type _ _ _ | .conversion _ _ type
  | .phi type _ | .call type _ _ _ _ | .vaArg _ type | .landingpad type _ _ => [type]
  | _ => []

def Terminator.types : Terminator → List TypeRef
  | .invoke type .. | .callbr type .. => [type]
  | _ => []

def ConstExpr.types : ConstExpr → List TypeRef
  | .getElementPtr type _ _ _ | .conversion _ _ type => [type]
  | _ => []

def Constant.types : Constant → List TypeRef
  | .int type _ | .float type _ | .null type | .struct type _ | .array type _ | .charArray type _
  | .vector type _ | .zeroInitializer type | .undef type => [type]
  | .expr e => e.types
  | .noneToken | .blockAddress .. => []

def Value.const? : Value → Option ConstRef
  | .const c => some c
  | _ => none

namespace Edit

def apply (g : Graph) : Edit → Except Fault Graph
  | intern type => return (g.intern type).2
  | addModule m => return (g.addModule m).2
  | addGlobal v => return (g.addGlobal v).2
  | addAlias a => return (g.addAlias a).2
  | addIFunc f => return (g.addIFunc f).2
  | addUseListOrder u => return (g.addUseListOrder u).2
  | addUseListOrderBlock u => return (g.addUseListOrderBlock u).2
  | addMetadata n => return (g.addMetadata n).2
  | addNamedMetadata n => return (g.addNamedMetadata n).2
  | addParam type ident => return (g.addParam type ident).2
  | addBlock ident => return (g.addBlock ident).2
  | addInst kind ident => return (← g.addInst kind ident).2
  | addComment text => return (← g.addComment text).2
  | addTerm kind ident => return (← g.addTerm kind ident).2
  | addConst data => return (← g.addConst data).2
  | addInt type value => return (← g.addInt type value).2
  | addZero type => return (← g.addZero type).2
  | addCString text => return (← g.addCString text).2
  | addPascalString text => return (← g.addPascalString text).2
  | addFunc f => return (← g.addFunc f).2
  | pushBlock f b => g.pushBlock f b
  | pushInst b i => g.pushInst b i
  | insertInstBefore b before i => g.insertInstBefore b before i
  | removeInst b i => g.removeInst b i
  | setTerm b t => g.setTerm b t
  | replaceUse u v => g.replaceUse u v
  | setInstKind i kind => g.setInstKind i kind
  | setTermKind t kind => g.setTermKind t kind
  | setMetadata m node => g.setMetadata m node
  | rename v name => g.modifyIdent v (·.rename name)
  | assignIds f => return (← g.assignIds f).2
  | resetNames f => g.resetNames f
  | refreshType i => return (← g.refreshType i).2
  | refreshTypes f => g.refreshTypes f
  | simplify c => return (← g.simplify c).2

def types : Edit → List TypeRef
  | intern type => type.components
  | addGlobal v => [v.contentType]
  | addAlias a => [a.contentType]
  | addIFunc f => [f.contentType]
  | addParam type _ | addInt type _ | addZero type => [type]
  | addInst kind _ | setInstKind _ kind => kind.types
  | addTerm kind _ | setTermKind _ kind => kind.types
  | addConst data => data.types
  | addFunc f => [f.type]
  | _ => []

end Edit

/-- Whether the table has handed out a reference. -/
def TypeTable.Has (t : TypeTable) (r : TypeRef) : Prop :=
  r.index < t.entries.size

instance (t : TypeTable) (r : TypeRef) : Decidable (t.Has r) :=
  inferInstanceAs (Decidable (_ < _))

namespace Graph

def run (g : Graph) (edits : List Edit) : Except Fault Graph :=
  edits.foldlM Edit.apply g

/-- What a run makes of the empty graph when every edit names only types that the table has handed
out before. A run without this condition can also end in a graph with types that are not in its
table, and a later question about one of them is out of range. -/
inductive Reachable : Graph → Prop
  | empty : Reachable .empty
  | edit {g g' : Graph} (e : Edit) (hg : Reachable g) (htypes : ∀ r ∈ e.types, g.types.Has r)
      (h : e.apply g = .ok g') : Reachable g'

theorem run_cons_eq_ok_iff {g g' : Graph} {e : Edit} {edits : List Edit} :
    g.run (e :: edits) = .ok g' ↔ ∃ mid, e.apply g = .ok mid ∧ mid.run edits = .ok g' := by
  rw [run, List.foldlM_cons, bind_eq_ok_iff]
  rfl

theorem run_append_eq_ok_iff {g g' : Graph} {first rest : List Edit} :
    g.run (first ++ rest) = .ok g' ↔ ∃ mid, g.run first = .ok mid ∧ mid.run rest = .ok g' := by
  rw [run, List.foldlM_append, bind_eq_ok_iff]
  rfl

/-- What every edit keeps, a run keeps. -/
theorem run_induction {P : Graph → Prop} {g g' : Graph} {edits : List Edit}
    (hstep : ∀ e g g', P g → Edit.apply g e = .ok g' → P g') (hg : P g)
    (h : g.run edits = .ok g') : P g' :=
  foldlM_induction (fun e _ g g' => hstep e g g') hg h

/-- Whether each edit of a run goes through and names only types that the table has handed out. -/
def typedRun (g : Graph) : List Edit → Bool
  | [] => true
  | e :: edits =>
    decide (∀ r ∈ e.types, g.types.Has r) &&
      match e.apply g with
      | .ok g => g.typedRun edits
      | .error _ => false

theorem Reachable.of_typedRun {g g' : Graph} {edits : List Edit} (hg : g.Reachable)
    (htyped : g.typedRun edits) (h : g.run edits = .ok g') : g'.Reachable := by
  induction edits generalizing g with
  | nil =>
    cases h
    exact hg
  | cons e edits ih =>
    obtain ⟨mid, he, hrest⟩ := run_cons_eq_ok_iff.mp h
    rw [typedRun, he, Bool.and_eq_true, decide_eq_true_iff] at htyped
    exact ih (.edit e hg htyped.1 he) htyped.2 hrest

/-- What can be reached is what some run makes. -/
theorem Reachable.exists_run {g : Graph} (h : Reachable g) :
    ∃ edits, Graph.empty.run edits = .ok g := by
  induction h with
  | empty => exact ⟨[], rfl⟩
  | edit e _ _ h ih =>
    obtain ⟨edits, hrun⟩ := ih
    refine ⟨edits ++ [e], run_append_eq_ok_iff.mpr ⟨_, hrun, ?_⟩⟩
    exact run_cons_eq_ok_iff.mpr ⟨_, h, rfl⟩

/-- A function whose first block gets three instructions, loses one and changes its terminator, and
that gets a second block. -/
def sampleRun : List Edit :=
  [.intern (.int 32), .intern (.func ⟨5⟩ [⟨5⟩] false), .addParam ⟨5⟩ .anonymous,
    .addBlock .anonymous, .addFunc ⟨"f", ⟨6⟩, [⟨0⟩], [⟨0⟩], none, none, none, []⟩,
    .addInst (.binary .add (.param ⟨0⟩) (.param ⟨0⟩)) .anonymous,
    .addInst (.binary .mul (.inst ⟨0⟩) (.param ⟨0⟩)) .anonymous, .addComment "first",
    .pushInst ⟨0⟩ ⟨0⟩, .pushInst ⟨0⟩ ⟨1⟩, .insertInstBefore ⟨0⟩ ⟨0⟩ ⟨2⟩,
    .addTerm .unreachable .anonymous, .addTerm (.ret (some (.inst ⟨1⟩))) .anonymous,
    .setTerm ⟨0⟩ ⟨0⟩, .setTerm ⟨0⟩ ⟨1⟩, .assignIds ⟨0⟩,
    .replaceUse (.inst ⟨1⟩ .x) (.param ⟨0⟩), .removeInst ⟨0⟩ ⟨0⟩,
    .addBlock ⟨some "end", none⟩, .pushBlock ⟨0⟩ ⟨1⟩]

def sampleGraph : Graph :=
  match empty.run sampleRun with
  | .ok g => g
  | .error _ => empty

theorem reachable_sampleGraph : sampleGraph.Reachable :=
  Reachable.empty.of_typedRun (show empty.typedRun sampleRun from rfl) rfl

end Graph

end IrGraph
