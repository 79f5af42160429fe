import IrGraph.Print.Operand

/-! Instructions and terminators as text, each on one line. -/

namespace IrGraph.Graph

def bundlesDoc (g : Graph) (bundles : List Bundle) : Except Fault Doc := do
  if bundles.isEmpty then return []
  let each ← bundles.mapM fun b => do
    return ((quoted b.tag ++ "(" ++ (← g.typedListDoc b.inputs) ++ ")" : Doc))
  return " [ " ++ Doc.commaSep each ++ " ]"

/-- The callee after its result type, or after its whole type if it is variadic. -/
def calleeDoc (g : Graph) (funcType : TypeRef) (callee : Value) : Except Fault Doc := do
  let type ← match ← g.types.get funcType with
    | .func result _ false => g.types.text result
    | _ => g.types.text funcType
  return type ++ " " ++ (← g.operandDoc callee)

def callDoc (g : Graph) (funcType : TypeRef) (callee : Value) (args : List Value)
    (bundles : List Bundle) : Except Fault Doc :=
  return (← g.calleeDoc funcType callee) ++ "(" ++ (← g.typedListDoc args) ++ ")" ++
    (← g.bundlesDoc bundles)

def labelDoc (g : Graph) (target : Value) : Except Fault Doc :=
  return "label " ++ (← g.operandDoc target)

def labelListDoc (g : Graph) (targets : List Value) : Except Fault Doc :=
  return "[" ++ Doc.commaSep (← targets.mapM g.labelDoc) ++ "]"

def unwindDoc (g : Graph) : Option Value → Except Fault Doc
  | some target => return " unwind " ++ (← g.labelDoc target)
  | none => return " unwind to caller"

def pairDoc (g : Graph) (x y : Value) : Except Fault Doc :=
  return (← g.typedDoc x) ++ ", " ++ (← g.operandDoc y)

def padDoc (g : Graph) (scope : Value) (args : List Value) : Except Fault Doc :=
  return " within " ++ (← g.operandDoc scope) ++ " [" ++ (← g.typedListDoc args) ++ "]"

/-- Number of elements behind a type, nothing for a single one. -/
def countDoc (g : Graph) : Option Value → Except Fault Doc
  | some n => return ", " ++ (← g.typedDoc n)
  | none => return []

/-- A note stands on one line. -/
def commentText (text : String) : String :=
  "; " ++ String.ofList (text.toList.flatMap fun c => if c = '\n' then [';', ' '] else [c])

def instBody (g : Graph) : Instruction → Except Fault Doc
  | .unary op x => return keyword op ++ " " ++ (← g.typedDoc x)
  | .binary op x y => return keyword op ++ " " ++ (← g.pairDoc x y)
  | .bitwise op x y => return keyword op ++ " " ++ (← g.pairDoc x y)
  | .extractElement x index => return "extractelement " ++ (← g.typedListDoc [x, index])
  | .insertElement x elem index =>
    return "insertelement " ++ (← g.typedListDoc [x, elem, index])
  | .shuffleVector x y mask => return "shufflevector " ++ (← g.typedListDoc [x, y, mask])
  | .extractValue x path => return "extractvalue " ++ (← g.typedDoc x) ++ pathText path
  | .insertValue x elem path =>
    return "insertvalue " ++ (← g.typedListDoc [x, elem]) ++ pathText path
  | .alloca elemType count addrSpace => do
    let space := if addrSpace = 0 then "" else ", addrspace(" ++ toString addrSpace ++ ")"
    return "alloca " ++ (← g.types.text elemType) ++ (← g.countDoc count) ++ space
  | .load elemType source isVolatile =>
    return (if isVolatile then "load volatile " else "load ") ++ (← g.types.text elemType) ++
      ", " ++ (← g.typedDoc source)
  | .store source dest isVolatile =>
    return (if isVolatile then "store volatile " else "store ") ++
      (← g.typedListDoc [source, dest])
  | .fence ordering => return "fence " ++ keyword ordering
  | .cmpxchg pointer expected replacement success failure =>
    return "cmpxchg " ++ (← g.typedListDoc [pointer, expected, replacement]) ++ " " ++
      keyword success ++ " " ++ keyword failure
  | .atomicrmw op dest x ordering =>
    return "atomicrmw " ++ keyword op ++ " " ++ (← g.typedListDoc [dest, x]) ++ " " ++
      keyword ordering
  | .getElementPtr elemType source indices inBounds =>
    return (if inBounds then "getelementptr inbounds " else "getelementptr ") ++
      (← g.types.text elemType) ++ ", " ++ (← g.typedListDoc (source :: indices))
  | .conversion op x target =>
    return keyword op ++ " " ++ (← g.typedDoc x) ++ " to " ++ (← g.types.text target)
  | .icmp predicate x y => return "icmp " ++ keyword predicate ++ " " ++ (← g.pairDoc x y)
  | .fcmp predicate x y => return "fcmp " ++ keyword predicate ++ " " ++ (← g.pairDoc x y)
  | .phi type incoming => do
    let text ← g.types.text type
    let edges ← incoming.mapM fun e => do
      return (("[ " ++ (← g.operandDoc e.value) ++ ", " ++ (← g.operandDoc e.pred) ++ " ]" : Doc))
    return "phi " ++ text ++ " " ++ Doc.commaSep edges
  | .select cond x y => return "select " ++ (← g.typedListDoc [cond, x, y])
  | .call funcType callee args bundles isTail =>
    return (if isTail then "tail call " else "call ") ++
      (← g.callDoc funcType callee args bundles)
  | .vaArg list type =>
    return "va_arg " ++ (← g.typedDoc list) ++ ", " ++ (← g.types.text type)
  | .landingpad type cleanup clauses => do
    let text ← g.types.text type
    let each ← clauses.mapM fun c => do
      return ((" " ++ keyword c.kind ++ " " ++ (← g.typedDoc c.value) : Doc))
    return "landingpad " ++ text ++ (if cleanup then " cleanup" else "") ++ each.flatten
  | .catchpad scope args => return "catchpad" ++ (← g.padDoc scope args)
  | .cleanuppad scope args => return "cleanuppad" ++ (← g.padDoc scope args)
  | .comment text => return commentText text

/-- The name or number of a result, unless there is none. -/
def resultDoc (g : Graph) (type : TypeRef) (ident : Ident) : Except Fault Doc := do
  if ← g.types.isVoid type then return [] else return "%" ++ ident.text ++ " = "

def instDoc (g : Graph) (i : InstRef) : Except Fault Doc := do
  let inst ← g.insts.get i
  if let .comment text := inst.kind then
    return commentText text
  return (← g.resultDoc inst.type inst.ident) ++ (← g.instBody inst.kind)

def termBody (g : Graph) : Terminator → Except Fault Doc
  | .ret none => return "ret void"
  | .ret (some x) => return "ret " ++ (← g.typedDoc x)
  | .br target => return "br " ++ (← g.labelDoc target)
  | .condbr cond targetTrue targetFalse =>
    return "br " ++ (← g.typedDoc cond) ++ ", " ++ (← g.labelDoc targetTrue) ++ ", " ++
      (← g.labelDoc targetFalse)
  | .switch x targetDefault cases => do
    let start : Doc :=
      "switch " ++ (← g.typedDoc x) ++ ", " ++ (← g.labelDoc targetDefault) ++ " ["
    let each ← cases.mapM fun c => do
      return ((" " ++ (← g.typedDoc c.value) ++ ", " ++ (← g.labelDoc c.target) : Doc))
    return start ++ each.flatten ++ " ]"
  | .indirectbr address validTargets =>
    return "indirectbr " ++ (← g.typedDoc address) ++ ", " ++ (← g.labelListDoc validTargets)
  | .invoke funcType invokee args normal exception bundles =>
    return "invoke " ++ (← g.callDoc funcType invokee args bundles) ++ " to " ++
      (← g.labelDoc normal) ++ " unwind " ++ (← g.labelDoc exception)
  | .callbr funcType callee args normal others bundles =>
    return "callbr " ++ (← g.callDoc funcType callee args bundles) ++ " to " ++
      (← g.labelDoc normal) ++ " " ++ (← g.labelListDoc others)
  | .resume x => return "resume " ++ (← g.typedDoc x)
  | .catchswitch scope handlers unwindTarget =>
    return "catchswitch within " ++ (← g.operandDoc scope) ++ " " ++
      (← g.labelListDoc handlers) ++ (← g.unwindDoc unwindTarget)
  | .catchret pad target =>
    return "catchret from " ++ (← g.operandDoc pad) ++ " to " ++ (← g.labelDoc target)
  | .cleanupret pad unwindTarget =>
    return "cleanupret from " ++ (← g.operandDoc pad) ++ (← g.unwindDoc unwindTarget)
  | .unreachable => return "unreachable"

def termDoc (g : Graph) (t : TermRef) : Except Fault Doc := do
  let term ← g.terms.get t
  return (← g.resultDoc term.type term.ident) ++ (← g.termBody term.kind)

end IrGraph.Graph
