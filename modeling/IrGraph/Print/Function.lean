import IrGraph.Print.Instruction

/-! Functions as text, line by line: the head, each block's label, instructions and terminator,
the records that order uses, and the closing bracket. A declaration is its head alone. -/

namespace IrGraph.Graph

def indicesText (indices : List Nat) : String :=
  "\x7b " ++ ", ".intercalate (indices.map toString) ++ " \x7d"

def useListOrderLine (g : Graph) (u : UseListOrderRef) : Except Fault Doc := do
  let order ← g.useListOrders.get u
  return "uselistorder " ++ (← g.typedDoc order.value) ++ ", " ++ indicesText order.indices

/-- A parameter, with its name if the function has a body. -/
def paramDoc (g : Graph) (defined : Bool) (p : ParamRef) : Except Fault Doc := do
  let param ← g.params.get p
  let type ← g.types.text param.type
  return if defined then type ++ " %" ++ param.ident.text else type

/-- An optional value of a function behind its keyword. -/
def attachedDoc (g : Graph) (word : String) : Option Value → Except Fault Doc
  | some v => return " " ++ word ++ " " ++ (← g.typedDoc v)
  | none => return []

def headDoc (g : Graph) (f : Func) : Except Fault Doc := do
  match ← g.types.get f.type with
  | .func result _ variadic =>
    let defined := !f.blocks.isEmpty
    let type ← g.types.text result
    let params ← f.params.mapM (g.paramDoc defined)
    return (if defined then "define " else "declare ") ++ type ++ " @" ++ nameText f.name ++ "(" ++
      Doc.commaSep (if variadic then params ++ [[.text "..."]] else params) ++ ")" ++
      (← g.attachedDoc "prefix" f.prefixData) ++ (← g.attachedDoc "prologue" f.prologueData) ++
      (← g.attachedDoc "personality" f.personality)
  | _ => throw (.nonFunctionType f.name (← g.types.text f.type))

/-- The line that a block starts with. -/
def blockLabel (i : Ident) : String :=
  match i.name with
  | some name => nameText name ++ ":"
  | none => "; <label>:" ++ i.text

def indented (d : Doc) : Doc :=
  "\t" ++ d

def blockLines (g : Graph) (b : BlockRef) : Except Fault (List Doc) := do
  let block ← g.blocks.get b
  let insts ← block.insts.mapM g.instDoc
  let term ← block.term.toList.mapM g.termDoc
  return [[.text (blockLabel block.ident)]] ++ insts.map indented ++ term.map indented

def funcLines (g : Graph) (r : FuncRef) : Except Fault (List Doc) := do
  let f ← g.funcs.get r
  let head ← g.headDoc f
  if f.blocks.isEmpty then return [head]
  let body ← f.blocks.mapM g.blockLines
  let orders ← f.useListOrders.mapM g.useListOrderLine
  return [head ++ " \x7b"] ++ body.flatten ++ orders.map indented ++ [[.text "\x7d"]]

end IrGraph.Graph
