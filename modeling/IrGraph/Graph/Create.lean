import IrGraph.Graph.Typing

/-! Creation. New instructions, terminators, blocks and parameters belong to nothing, except that
a new function takes the parameters and blocks it is made of. -/

namespace IrGraph.Graph

def intern (g : Graph) (type : IrType) : TypeRef × Graph :=
  let (r, types) := g.types.intern type
  (r, { g with types })

def addModule (g : Graph) (m : Module) : ModuleRef × Graph :=
  (g.modules.next, { g with modules := g.modules.push m })

def addGlobal (g : Graph) (v : GlobalVar) : GlobalRef × Graph :=
  (g.globals.next, { g with globals := g.globals.push v })

def addAlias (g : Graph) (a : GlobalAlias) : AliasRef × Graph :=
  (g.aliases.next, { g with aliases := g.aliases.push a })

def addIFunc (g : Graph) (f : IFunc) : IFuncRef × Graph :=
  (g.ifuncs.next, { g with ifuncs := g.ifuncs.push f })

def addUseListOrder (g : Graph) (u : UseListOrder) : UseListOrderRef × Graph :=
  (g.useListOrders.next, { g with useListOrders := g.useListOrders.push u })

def addUseListOrderBlock (g : Graph) (u : UseListOrderBlock) : UseListOrderBlockRef × Graph :=
  (g.useListOrderBlocks.next, { g with useListOrderBlocks := g.useListOrderBlocks.push u })

def addMetadata (g : Graph) (n : MetadataNode) : MetadataRef × Graph :=
  (g.metadata.next, { g with metadata := g.metadata.push n })

def addNamedMetadata (g : Graph) (n : NamedMetadata) : NamedMetadataRef × Graph :=
  (g.namedMetadata.next, { g with namedMetadata := g.namedMetadata.push n })

def addParam (g : Graph) (type : TypeRef) (ident : Ident) : ParamRef × Graph :=
  (g.params.next, { g with params := g.params.push ⟨type, ident, none⟩ })

def addBlock (g : Graph) (ident : Ident) : BlockRef × Graph :=
  (g.blocks.next, { g with blocks := g.blocks.push ⟨ident, [], none, none⟩ })

def addInst (g : Graph) (kind : Instruction) (ident : Ident) : Except Fault (InstRef × Graph) := do
  let (type, types) ← g.instType kind
  return (g.insts.next, { g with types, insts := g.insts.push ⟨kind, type, ident, none⟩ })

/-- A note: an instruction that has neither operands nor a result. -/
def addComment (g : Graph) (text : String) : Except Fault (InstRef × Graph) :=
  g.addInst (.comment text) .anonymous

def addTerm (g : Graph) (kind : Terminator) (ident : Ident) : Except Fault (TermRef × Graph) := do
  let type ← g.termType kind
  return (g.terms.next, { g with terms := g.terms.push ⟨kind, type, ident, none⟩ })

def addConst (g : Graph) (data : Constant) : Except Fault (ConstRef × Graph) := do
  let (type, types) ← g.constType data
  return (g.consts.next, { g with types, consts := g.consts.push ⟨data, type⟩ })

/-- Makes a free parameter belong to a function. -/
def claimParam (g : Graph) (f : FuncRef) (p : ParamRef) : Except Fault Graph := do
  let param ← g.params.get p
  match param.owner with
  | some owner => throw (.paramTaken p owner f)
  | none => return { g with params := g.params.set p { param with owner := some f } }

/-- Makes a free block belong to a function. -/
def claimBlock (g : Graph) (f : FuncRef) (b : BlockRef) : Except Fault Graph := do
  let block ← g.blocks.get b
  match block.owner with
  | some owner => throw (.blockTaken b owner f)
  | none => return { g with blocks := g.blocks.set b { block with owner := some f } }

/-- Adds a function and makes its parameters, then its blocks, belong to it. -/
def addFunc (g : Graph) (f : Func) : Except Fault (FuncRef × Graph) := do
  let r := g.funcs.next
  let g := { g with funcs := g.funcs.push f }
  let g ← f.params.foldlM (claimParam · r) g
  let g ← f.blocks.foldlM (claimBlock · r) g
  return (r, g)

end IrGraph.Graph
