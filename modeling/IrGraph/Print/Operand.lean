import IrGraph.Graph.Typing
import IrGraph.Text.Doc

/-! Operands as text. Constants and wrapped metadata are printed where they stand, so an operand
that contains itself has no text; every other operand is printed by its name or number. -/

namespace IrGraph.Graph

/-- How the operands inside an operand are printed. -/
abbrev Printer := Value → Except Fault Doc

def typed (g : Graph) (operand : Printer) (v : Value) : Except Fault Doc := do
  let type ← g.types.text (← g.valueType v)
  return type ++ " " ++ (← operand v)

def typedList (g : Graph) (operand : Printer) (vs : List Value) : Except Fault Doc :=
  return .commaSep (← vs.mapM (g.typed operand))

def pathText (path : List Nat) : String :=
  String.join (path.map fun i => ", " ++ toString i)

def exprDoc (g : Graph) (operand : Printer) (e : ConstExpr) : Except Fault Doc := do
  let list := g.typedList operand
  match e with
  | .unary op x => return keyword op ++ " (" ++ (← list [x]) ++ ")"
  | .binary op x y => return keyword op ++ " (" ++ (← list [x, y]) ++ ")"
  | .bitwise op x y => return keyword op ++ " (" ++ (← list [x, y]) ++ ")"
  | .extractElement x index => return "extractelement (" ++ (← list [x, index]) ++ ")"
  | .insertElement x elem index => return "insertelement (" ++ (← list [x, elem, index]) ++ ")"
  | .shuffleVector x y mask => return "shufflevector (" ++ (← list [x, y, mask]) ++ ")"
  | .extractValue x path => return "extractvalue (" ++ (← list [x]) ++ pathText path ++ ")"
  | .insertValue x elem path =>
    return "insertvalue (" ++ (← list [x, elem]) ++ pathText path ++ ")"
  | .getElementPtr elemType source indices inBounds =>
    let start := if inBounds then "getelementptr inbounds (" else "getelementptr ("
    return start ++ (← g.types.text elemType) ++ ", " ++ (← list (source :: indices)) ++ ")"
  | .conversion op x target =>
    return keyword op ++ " (" ++ (← list [x]) ++ " to " ++ (← g.types.text target) ++ ")"
  | .icmp predicate x y => return "icmp " ++ keyword predicate ++ " (" ++ (← list [x, y]) ++ ")"
  | .fcmp predicate x y => return "fcmp " ++ keyword predicate ++ " (" ++ (← list [x, y]) ++ ")"
  | .select cond x y => return "select (" ++ (← list [cond, x, y]) ++ ")"

/-- A literal of one bit is a truth value. -/
def intText (g : Graph) (type : TypeRef) (value : BitVec 128) : Except Fault String := do
  if (← g.types.intBits? type) = some 1 then
    return if value = 0 then "false" else "true"
  else
    return toString value.toInt

def constantDoc (g : Graph) (operand : Printer) (c : Constant) : Except Fault Doc := do
  match c with
  | .int type value => return (← g.intText type value : String)
  | .float _ value => return value.text
  | .null _ => return "null"
  | .noneToken => return "none"
  | .struct type fields =>
    let packed := match ← g.types.get type with
      | .struct _ packed => packed
      | _ => false
    let inner ← g.typedList operand fields
    return if packed then "<\x7b " ++ inner ++ " \x7d>" else "\x7b " ++ inner ++ " \x7d"
  | .array _ elems => return "[" ++ (← g.typedList operand elems) ++ "]"
  | .charArray _ bytes => return "c\"" ++ escape bytes ++ "\""
  | .vector _ elems => return "<" ++ (← g.typedList operand elems) ++ ">"
  | .zeroInitializer _ => return "zeroinitializer"
  | .undef _ => return "undef"
  | .blockAddress func block =>
    return "blockaddress(" ++ (← operand func) ++ ", " ++ (← operand block) ++ ")"
  | .expr e => g.exprDoc operand e

/-- The text of an operand that nests at most `depth` deep. -/
def operandWithin (g : Graph) : Nat → Printer
  | 0, _ => .error .endless
  | depth + 1, v => do
    match v with
    | .const c => g.constantDoc (g.operandWithin depth) (← g.consts.get c).data
    | .globalVar _ | .func _ | .alias _ | .ifunc _ =>
      return "@" ++ nameText ((← g.globalName? v).getD "?")
    | .param _ | .block _ | .inst _ | .term _ =>
      return "%" ++ ((← g.localIdent? v).map Ident.text).getD "?"
    | .metadata m =>
      match ← g.metadata.get m with
      | .string s => return "!" ++ quoted s
      | .value v => g.typed (g.operandWithin depth) v
      | .null => return "null"
      | _ => return [.mention m.index]

/-- The text of an operand. Operands nest no deeper than there are constants and metadata. -/
def operandDoc (g : Graph) : Printer :=
  g.operandWithin (g.consts.size + g.metadata.size + 1)

def typedDoc (g : Graph) (v : Value) : Except Fault Doc :=
  g.typed g.operandDoc v

def typedListDoc (g : Graph) (vs : List Value) : Except Fault Doc :=
  g.typedList g.operandDoc vs

end IrGraph.Graph
