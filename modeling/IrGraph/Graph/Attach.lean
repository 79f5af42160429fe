import IrGraph.Graph.Create

/-! Attaching and detaching. Each operation keeps a list and the owner links of its members in
step. -/

namespace IrGraph.Graph

def pushBlock (g : Graph) (f : FuncRef) (b : BlockRef) : Except Fault Graph := do
  let g ← g.claimBlock f b
  return { g with funcs := ← g.funcs.modify f fun x => { x with blocks := x.blocks ++ [b] } }

def freeInst (g : Graph) (place : Placement) (i : InstRef) : Except Fault Inst := do
  let inst ← g.insts.get i
  match inst.owner with
  | some owner => throw (.instTaken place i owner)
  | none => return inst

def pushInst (g : Graph) (b : BlockRef) (i : InstRef) : Except Fault Graph := do
  let inst ← g.freeInst .atEnd i
  let blocks ← g.blocks.modify b fun x => { x with insts := x.insts ++ [i] }
  return { g with blocks, insts := g.insts.set i { inst with owner := some b } }

def insertBefore? (before i : InstRef) : List InstRef → Option (List InstRef)
  | [] => none
  | j :: rest =>
    if j = before then some (i :: j :: rest) else (insertBefore? before i rest).map (j :: ·)

def insertInstBefore (g : Graph) (b : BlockRef) (before i : InstRef) : Except Fault Graph := do
  let inst ← g.freeInst .beforeAnother i
  let block ← g.blocks.get b
  match insertBefore? before i block.insts with
  | none => throw (.notInBlock before b)
  | some insts =>
    return { g with
      blocks := g.blocks.set b { block with insts }
      insts := g.insts.set i { inst with owner := some b } }

/-- Takes an instruction out of a block; the instruction stays in the graph. -/
def removeInst (g : Graph) (b : BlockRef) (i : InstRef) : Except Fault Graph := do
  let blocks ← g.blocks.modify b fun x => { x with insts := x.insts.filter (· ≠ i) }
  let inst ← g.insts.get i
  if inst.owner = some b then
    return { g with blocks, insts := g.insts.set i { inst with owner := none } }
  else
    return { g with blocks }

/-- Gives a block its terminator; the one it had belongs to nothing afterwards. -/
def setTerm (g : Graph) (b : BlockRef) (t : TermRef) : Except Fault Graph := do
  let term ← g.terms.get t
  if let some owner := term.owner then
    if owner ≠ b then throw (.termTaken t owner b)
  let block ← g.blocks.get b
  let terms ← match block.term with
    | none => pure g.terms
    | some old => g.terms.modify old fun x => { x with owner := none }
  return { g with
    blocks := g.blocks.set b { block with term := some t }
    terms := ← terms.modify t fun x => { x with owner := some b } }

end IrGraph.Graph
