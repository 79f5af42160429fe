import IrGraph.Graph.Create
import IrGraph.Instruction.Slot
import IrGraph.Terminator.Slot

/-! Uses: operand slots of instructions and terminators, each with its owner. Writing a slot or
replacing a kind leaves the stored result type alone until types are computed again. -/

namespace IrGraph

inductive Use
  | inst (owner : InstRef) (slot : InstSlot)
  | term (owner : TermRef) (slot : TermSlot)
  deriving DecidableEq, Repr

namespace Use

/-- The instruction or terminator that has the slot. -/
def user : Use → Value
  | inst owner _ => .inst owner
  | term owner _ => .term owner

end Use

namespace Graph

def readUse (g : Graph) : Use → Except Fault Value
  | .inst owner slot => do
    let kind := (← g.insts.get owner).kind
    match kind.read slot with
    | some v => return v
    | none => throw (.staleUse kind.kindName slot.text)
  | .term owner slot => do
    let kind := (← g.terms.get owner).kind
    match kind.read slot with
    | some v => return v
    | none => throw (.staleUse kind.kindName slot.text)

def setInstKind (g : Graph) (i : InstRef) (kind : Instruction) : Except Fault Graph :=
  return { g with insts := ← g.insts.modify i fun x => { x with kind } }

def setTermKind (g : Graph) (t : TermRef) (kind : Terminator) : Except Fault Graph :=
  return { g with terms := ← g.terms.modify t fun x => { x with kind } }

def setMetadata (g : Graph) (m : MetadataRef) (node : MetadataNode) : Except Fault Graph :=
  return { g with metadata := ← g.metadata.modify m fun _ => node }

def replaceUse (g : Graph) (u : Use) (v : Value) : Except Fault Graph :=
  match u with
  | .inst owner slot => do
    let kind := (← g.insts.get owner).kind
    match kind.write slot v with
    | some new => g.setInstKind owner new
    | none => throw (.staleUse kind.kindName slot.text)
  | .term owner slot => do
    let kind := (← g.terms.get owner).kind
    match kind.write slot v with
    | some new => g.setTermKind owner new
    | none => throw (.staleUse kind.kindName slot.text)

def instUses (g : Graph) (i : InstRef) : Except Fault (List Use) :=
  return (← g.insts.get i).kind.operands.map fun (slot, _) => .inst i slot

def termUses (g : Graph) (t : TermRef) : Except Fault (List Use) :=
  return (← g.terms.get t).kind.operands.map fun (slot, _) => .term t slot

def blockUses (g : Graph) (b : Block) : Except Fault (List Use) := do
  let uses ← b.insts.mapM g.instUses
  let last ← b.term.toList.mapM g.termUses
  return uses.flatten ++ last.flatten

/-- The uses of all instructions and terminators of a function, in layout order. -/
def funcUses (g : Graph) (f : FuncRef) : Except Fault (List Use) := do
  let body ← g.body (← g.funcs.get f)
  return (← body.mapM fun (_, b) => g.blockUses b).flatten

/-- Computes the result type of an instruction again from its operands; says whether it
changed. -/
def refreshType (g : Graph) (i : InstRef) : Except Fault (Bool × Graph) := do
  let inst ← g.insts.get i
  let (type, types) ← g.instType inst.kind
  return (inst.type ≠ type, { g with types, insts := g.insts.set i { inst with type } })

def refreshTypes (g : Graph) (f : FuncRef) : Except Fault Graph := do
  let body ← g.body (← g.funcs.get f)
  (body.flatMap fun (_, b) => b.insts).foldlM (fun g i => return (← g.refreshType i).2) g

end Graph

end IrGraph
