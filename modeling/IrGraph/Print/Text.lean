import IrGraph.Print.Module

/-! The printed text of a module, a function, an instruction or an operand. -/

namespace IrGraph.Graph

def printModule (g : Graph) (r : ModuleRef) : Except Fault String :=
  return (← g.moduleDoc r).render

/-- Every line of a function ends in a line break. -/
def printFunc (g : Graph) (r : FuncRef) : Except Fault String :=
  return String.join ((← g.funcLines r).map fun line => line.render ++ "\n")

def printInst (g : Graph) (i : InstRef) : Except Fault String :=
  return (← g.instDoc i).render

/-- An operand with its type. -/
def printValue (g : Graph) (v : Value) : Except Fault String :=
  return (← g.typedDoc v).render

/-- The text of a note, if the instruction is one. -/
def noteText? (g : Graph) (i : InstRef) : Except Fault (Option String) := do
  match (← g.insts.get i).kind with
  | .comment _ => return some (← g.printInst i)
  | _ => return none

end IrGraph.Graph
