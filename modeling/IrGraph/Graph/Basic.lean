import IrGraph.Arena
import IrGraph.Graph.Entity

/-! The graph: one arena for every kind of entity, and the table of types. -/

namespace IrGraph

structure Graph where
  types : TypeTable
  modules : Arena .module Module
  globals : Arena .globalVar GlobalVar
  funcs : Arena .func Func
  aliases : Arena .alias GlobalAlias
  ifuncs : Arena .ifunc IFunc
  params : Arena .param Param
  blocks : Arena .block Block
  insts : Arena .inst Inst
  terms : Arena .term Term
  consts : Arena .const StoredConstant
  metadata : Arena .metadata MetadataNode
  namedMetadata : Arena .namedMetadata NamedMetadata
  useListOrders : Arena .useListOrder UseListOrder
  useListOrderBlocks : Arena .useListOrderBlock UseListOrderBlock
  deriving DecidableEq, Repr

namespace Graph

def empty : Graph where
  types := .initial
  modules := .empty
  globals := .empty
  funcs := .empty
  aliases := .empty
  ifuncs := .empty
  params := .empty
  blocks := .empty
  insts := .empty
  terms := .empty
  consts := .empty
  metadata := .empty
  namedMetadata := .empty
  useListOrders := .empty
  useListOrderBlocks := .empty

/-- The type of a value. A constant that does not exist counts as void. -/
def valueType (g : Graph) : Value → Except Fault TypeRef
  | .const c =>
    match g.consts.get? c with
    | some c => .ok c.type
    | none => .ok .void
  | .globalVar _ | .func _ | .alias _ | .ifunc _ => .ok .pointer
  | .param p => return (← g.params.get p).type
  | .block _ => .ok .label
  | .inst i => return (← g.insts.get i).type
  | .term t => return (← g.terms.get t).type
  | .metadata _ => .ok .metadata

def localIdent? (g : Graph) : Value → Except Fault (Option Ident)
  | .param p => return some (← g.params.get p).ident
  | .block b => return some (← g.blocks.get b).ident
  | .inst i => return some (← g.insts.get i).ident
  | .term t => return some (← g.terms.get t).ident
  | _ => .ok none

def globalName? (g : Graph) : Value → Except Fault (Option String)
  | .globalVar r => return some (← g.globals.get r).name
  | .func r => return some (← g.funcs.get r).name
  | .alias r => return some (← g.aliases.get r).name
  | .ifunc r => return some (← g.ifuncs.get r).name
  | _ => .ok none

def modifyIdent (g : Graph) (v : Value) (f : Ident → Ident) : Except Fault Graph :=
  match v with
  | .param p =>
    return { g with params := ← g.params.modify p fun x => { x with ident := f x.ident } }
  | .block b =>
    return { g with blocks := ← g.blocks.modify b fun x => { x with ident := f x.ident } }
  | .inst i =>
    return { g with insts := ← g.insts.modify i fun x => { x with ident := f x.ident } }
  | .term t =>
    return { g with terms := ← g.terms.modify t fun x => { x with ident := f x.ident } }
  | _ => .ok g

def body (g : Graph) (f : Func) : Except Fault (List (BlockRef × Block)) :=
  f.blocks.mapM fun b => return (b, ← g.blocks.get b)

end Graph

/-- A block, its instructions and its terminator, in layout order. -/
def Block.layout (b : Block) (r : BlockRef) : List Value :=
  .block r :: b.insts.map .inst ++ b.term.toList.map .term

def Graph.layout (g : Graph) (f : Func) : Except Fault (List Value) :=
  return (← g.body f).flatMap fun (r, b) => b.layout r

end IrGraph
