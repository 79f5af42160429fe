import IrGraph.Text.Keyword

/-! References into the arenas of a graph: a kind and a position. An operand is a reference to
one of ten kinds, a node is a reference to any kind. -/

namespace IrGraph

inductive Kind
  | module
  | globalVar
  | func
  | alias
  | ifunc
  | param
  | block
  | inst
  | term
  | const
  | metadata
  | namedMetadata
  | useListOrder
  | useListOrderBlock
  deriving DecidableEq, Repr

instance : Keyword Kind where
  all := [.module, .globalVar, .func, .alias, .ifunc, .param, .block, .inst, .term, .const,
    .metadata, .namedMetadata, .useListOrder, .useListOrderBlock]
  keyword
    | .module => "module"
    | .globalVar => "global"
    | .func => "func"
    | .alias => "alias"
    | .ifunc => "ifunc"
    | .param => "param"
    | .block => "block"
    | .inst => "inst"
    | .term => "term"
    | .const => "const"
    | .metadata => "md"
    | .namedMetadata => "named_md"
    | .useListOrder => "uselistorder"
    | .useListOrderBlock => "uselistorder_bb"
  find?_keyword a := by cases a <;> rfl
  isWord a := by cases a <;> rfl

/-- Position in the arena of one kind. -/
structure Ref (k : Kind) where
  index : Nat
  deriving DecidableEq, Repr, Inhabited

abbrev ModuleRef := Ref .module
abbrev GlobalRef := Ref .globalVar
abbrev FuncRef := Ref .func
abbrev AliasRef := Ref .alias
abbrev IFuncRef := Ref .ifunc
abbrev ParamRef := Ref .param
abbrev BlockRef := Ref .block
abbrev InstRef := Ref .inst
abbrev TermRef := Ref .term
abbrev ConstRef := Ref .const
abbrev MetadataRef := Ref .metadata
abbrev NamedMetadataRef := Ref .namedMetadata
abbrev UseListOrderRef := Ref .useListOrder
abbrev UseListOrderBlockRef := Ref .useListOrderBlock

/-- Anything that a walk can visit. -/
structure Node where
  kind : Kind
  index : Nat
  deriving DecidableEq, Repr

def Node.text (n : Node) : String :=
  keyword n.kind ++ toString n.index

/-- Reads `inst12`: the keyword of a kind, then a position. -/
def Node.ofText? (s : String) : Option Node := do
  let (word, position) := s.toList.span (!·.isDigit)
  return ⟨← ofKeyword? (String.ofList word), ← (String.ofList position).toNat?⟩

def Ref.node {k : Kind} (r : Ref k) : Node :=
  ⟨k, r.index⟩

def Ref.text {k : Kind} (r : Ref k) : String :=
  r.node.text

/-- What an operand slot holds. Branch targets are operands too. -/
inductive Value
  | const (r : ConstRef)
  | globalVar (r : GlobalRef)
  | func (r : FuncRef)
  | alias (r : AliasRef)
  | ifunc (r : IFuncRef)
  | param (r : ParamRef)
  | block (r : BlockRef)
  /-- Result of an instruction. -/
  | inst (r : InstRef)
  /-- Result of a terminator. -/
  | term (r : TermRef)
  | metadata (r : MetadataRef)
  deriving DecidableEq, Repr

namespace Value

def node : Value → Node
  | const r => r.node
  | globalVar r => r.node
  | func r => r.node
  | .alias r => r.node
  | ifunc r => r.node
  | param r => r.node
  | block r => r.node
  | inst r => r.node
  | term r => r.node
  | metadata r => r.node

/-- Modules and the records that order uses or name metadata are no operands. -/
def ofNode? (n : Node) : Option Value :=
  match n.kind with
  | .const => some (const ⟨n.index⟩)
  | .globalVar => some (globalVar ⟨n.index⟩)
  | .func => some (func ⟨n.index⟩)
  | .alias => some (.alias ⟨n.index⟩)
  | .ifunc => some (ifunc ⟨n.index⟩)
  | .param => some (param ⟨n.index⟩)
  | .block => some (block ⟨n.index⟩)
  | .inst => some (inst ⟨n.index⟩)
  | .term => some (term ⟨n.index⟩)
  | .metadata => some (metadata ⟨n.index⟩)
  | .module | .namedMetadata | .useListOrder | .useListOrderBlock => none

def text (v : Value) : String :=
  v.node.text

theorem ofNode?_node (v : Value) : ofNode? v.node = some v := by
  cases v <;> rfl

end Value

end IrGraph
