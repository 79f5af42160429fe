import IrGraph.Print.Function
import IrGraph.Print.Metadata

/-! Modules as text. The parts of a module stand apart by empty lines; a part without lines is
left out. Every node of the graph that can be referred to by number is defined at the end. -/

namespace IrGraph.Graph

def headerLines (m : Module) : List Doc :=
  let line (key : String) : Option String → List Doc
    | some s => [[.text (key ++ " = " ++ quoted s)]]
    | none => []
  line "source_filename" m.sourceFilename ++ line "target datalayout" m.dataLayout ++
    line "target triple" m.targetTriple

def globalLine (g : Graph) (r : GlobalRef) : Except Fault Doc := do
  let v ← g.globals.get r
  let type ← g.types.text v.contentType
  let sort := if v.immutable then "constant " else "global "
  match v.init with
  | none => return "@" ++ nameText v.name ++ " = external " ++ sort ++ type
  | some init =>
    return "@" ++ nameText v.name ++ " = " ++ sort ++ type ++ " " ++ (← g.operandDoc init)

def aliasLine (g : Graph) (r : AliasRef) : Except Fault Doc := do
  let a ← g.aliases.get r
  let type ← g.types.text a.contentType
  return "@" ++ nameText a.name ++ " = alias " ++ type ++ ", " ++ (← g.typedDoc a.aliasee)

def ifuncLine (g : Graph) (r : IFuncRef) : Except Fault Doc := do
  let f ← g.ifuncs.get r
  let type ← g.types.text f.contentType
  return "@" ++ nameText f.name ++ " = ifunc " ++ type ++ ", " ++ (← g.typedDoc f.resolver)

def useListOrderBlockLine (g : Graph) (r : UseListOrderBlockRef) : Except Fault Doc := do
  let u ← g.useListOrderBlocks.get r
  return "uselistorder_bb " ++ (← g.operandDoc u.func) ++ ", " ++ (← g.operandDoc u.block) ++
    ", " ++ indicesText u.indices

/-- The definitions of all nodes of the graph, in order. -/
def definitionLines (g : Graph) : Except Fault (List Doc) := do
  let lines ← g.metadata.refs.mapM fun m => do g.definitionLine? m (← g.metadata.get m)
  return lines.filterMap id

/-- The parts of a module, each as its lines. -/
def moduleParts (g : Graph) (r : ModuleRef) : Except Fault (List (List Doc)) := do
  let m ← g.modules.get r
  let globals ← m.globals.mapM g.globalLine
  let aliases ← m.aliases.mapM g.aliasLine
  let ifuncs ← m.ifuncs.mapM g.ifuncLine
  let funcs ← m.funcs.mapM g.funcLines
  let orders ← m.useListOrders.mapM g.useListOrderLine
  let blockOrders ← m.useListOrderBlocks.mapM g.useListOrderBlockLine
  let named ← m.namedMetadata.mapM fun n => return namedMetadataLine (← g.namedMetadata.get n)
  let definitions ← g.definitionLines
  return [headerLines m, globals, aliases ++ ifuncs] ++ funcs ++
    [orders ++ blockOrders, named ++ definitions]

def moduleDoc (g : Graph) (r : ModuleRef) : Except Fault Doc := do
  let parts := (← g.moduleParts r).filter (!·.isEmpty)
  return Doc.join "\n\n" (parts.map (Doc.join "\n")) ++ "\n"

end IrGraph.Graph
