import IrGraph.Instruction.Basic

/-! Operand slots of an instruction. A slot is named by the part the operand plays, and by a
position where there are several. Listing the operands, reading a slot and writing a slot are
three definitions, which agree on what slots an instruction has.

A position is a 32-bit word. Listing truncates positions to words, so behind the first 2³² operands
of a list the slots begin again from 0, and no slot reaches what is there. -/

namespace IrGraph

inductive InstSlot
  | x
  | y
  | index
  | elem
  | mask
  | count
  | source
  | dest
  | pointer
  | expected
  | replacement
  | pointerIndex (i : UInt32)
  | converted
  | incomingValue (i : UInt32)
  | incomingPred (i : UInt32)
  | cond
  | callee
  | arg (i : UInt32)
  | bundleInput (bundle input : UInt32)
  | argList
  | clause (i : UInt32)
  | scope
  deriving DecidableEq, Repr

/-- Debug form of a slot's name and positions. -/
def slotText : String × List Nat → String
  | (name, [bundle, input]) =>
    name ++ " \x7b bundle: " ++ toString bundle ++ ", input: " ++ toString input ++ " \x7d"
  | (name, [i]) => name ++ "(" ++ toString i ++ ")"
  | (name, _) => name

namespace InstSlot

def parts : InstSlot → String × List Nat
  | x => ("X", [])
  | y => ("Y", [])
  | index => ("Index", [])
  | elem => ("Elem", [])
  | mask => ("Mask", [])
  | count => ("NElems", [])
  | source => ("Src", [])
  | dest => ("Dst", [])
  | pointer => ("Ptr", [])
  | expected => ("Cmp", [])
  | replacement => ("New", [])
  | pointerIndex i => ("GepIndex", [i.toNat])
  | converted => ("From", [])
  | incomingValue i => ("IncomingX", [i.toNat])
  | incomingPred i => ("IncomingPred", [i.toNat])
  | cond => ("Cond", [])
  | callee => ("Callee", [])
  | arg i => ("Arg", [i.toNat])
  | bundleInput bundle input => ("BundleInput", [bundle.toNat, input.toNat])
  | argList => ("ArgList", [])
  | clause i => ("Clause", [i.toNat])
  | scope => ("Scope", [])

def ofParts? : String → List Nat → Option InstSlot
  | "X", [] => some x
  | "Y", [] => some y
  | "Index", [] => some index
  | "Elem", [] => some elem
  | "Mask", [] => some mask
  | "NElems", [] => some count
  | "Src", [] => some source
  | "Dst", [] => some dest
  | "Ptr", [] => some pointer
  | "Cmp", [] => some expected
  | "New", [] => some replacement
  | "GepIndex", [i] => some (pointerIndex i.toUInt32)
  | "From", [] => some converted
  | "IncomingX", [i] => some (incomingValue i.toUInt32)
  | "IncomingPred", [i] => some (incomingPred i.toUInt32)
  | "Cond", [] => some cond
  | "Callee", [] => some callee
  | "Arg", [i] => some (arg i.toUInt32)
  | "BundleInput", [bundle, input] => some (bundleInput bundle.toUInt32 input.toUInt32)
  | "ArgList", [] => some argList
  | "Clause", [i] => some (clause i.toUInt32)
  | "Scope", [] => some scope
  | _, _ => none

def text (s : InstSlot) : String :=
  slotText s.parts

end InstSlot

def bundleOperands {σ : Type} (slot : UInt32 → UInt32 → σ) (bundles : List Bundle) :
    List (σ × Value) :=
  (bundles.mapIdx fun b bundle =>
    bundle.inputs.mapIdx fun i v => (slot b.toUInt32 i.toUInt32, v)).flatten

def readBundle (bundles : List Bundle) (b i : UInt32) : Option Value := do
  (← bundles[b.toNat]?).inputs[i.toNat]?

/-- Puts `v` at a position that the list has. -/
def writeAt {α : Type} (l : List α) (i : UInt32) (v : α) : Option (List α) :=
  if i.toNat < l.length then some (l.set i.toNat v) else none

def writeBundle (bundles : List Bundle) (b i : UInt32) (v : Value) : Option (List Bundle) := do
  let bundle ← bundles[b.toNat]?
  let inputs ← writeAt bundle.inputs i v
  return bundles.set b.toNat { bundle with inputs := inputs }

namespace Instruction

open InstSlot in
/-- Every operand with its slot, in operand order. -/
def operands : Instruction → List (InstSlot × Value)
  | unary _ a => [(x, a)]
  | binary _ a b | bitwise _ a b | icmp _ a b | fcmp _ a b => [(x, a), (y, b)]
  | extractElement a i => [(x, a), (index, i)]
  | insertElement a e i => [(x, a), (elem, e), (index, i)]
  | shuffleVector a b m => [(x, a), (y, b), (mask, m)]
  | extractValue a _ => [(x, a)]
  | insertValue a e _ => [(x, a), (elem, e)]
  | alloca _ n _ => n.toList.map fun v => (count, v)
  | load _ s _ => [(source, s)]
  | store s d _ => [(source, s), (dest, d)]
  | fence _ => []
  | cmpxchg p e r _ _ => [(pointer, p), (expected, e), (replacement, r)]
  | atomicrmw _ d a _ => [(dest, d), (x, a)]
  | getElementPtr _ s is _ => (source, s) :: is.mapIdx fun i v => (pointerIndex i.toUInt32, v)
  | conversion _ a _ => [(converted, a)]
  | phi _ incoming =>
    (incoming.mapIdx fun i e =>
      [(incomingValue i.toUInt32, e.value), (incomingPred i.toUInt32, e.pred)]).flatten
  | select c a b => [(cond, c), (x, a), (y, b)]
  | call _ f args bundles _ =>
    (callee, f) :: (args.mapIdx fun i v => (arg i.toUInt32, v)) ++
      bundleOperands bundleInput bundles
  | vaArg l _ => [(argList, l)]
  | landingpad _ _ clauses => clauses.mapIdx fun i c => (clause i.toUInt32, c.value)
  | catchpad s args | cleanuppad s args =>
    (scope, s) :: args.mapIdx fun i v => (arg i.toUInt32, v)
  | comment _ => []

/-- The operand in a slot, if the instruction has the slot. -/
def read : Instruction → InstSlot → Option Value
  | unary _ a, .x => some a
  | binary _ a _, .x => some a
  | binary _ _ b, .y => some b
  | bitwise _ a _, .x => some a
  | bitwise _ _ b, .y => some b
  | extractElement a _, .x => some a
  | extractElement _ i, .index => some i
  | insertElement a _ _, .x => some a
  | insertElement _ e _, .elem => some e
  | insertElement _ _ i, .index => some i
  | shuffleVector a _ _, .x => some a
  | shuffleVector _ b _, .y => some b
  | shuffleVector _ _ m, .mask => some m
  | extractValue a _, .x => some a
  | insertValue a _ _, .x => some a
  | insertValue _ e _, .elem => some e
  | alloca _ n _, .count => n
  | load _ s _, .source => some s
  | store s _ _, .source => some s
  | store _ d _, .dest => some d
  | cmpxchg p _ _ _ _, .pointer => some p
  | cmpxchg _ e _ _ _, .expected => some e
  | cmpxchg _ _ r _ _, .replacement => some r
  | atomicrmw _ d _ _, .dest => some d
  | atomicrmw _ _ a _, .x => some a
  | getElementPtr _ s _ _, .source => some s
  | getElementPtr _ _ is _, .pointerIndex i => is[i.toNat]?
  | conversion _ a _, .converted => some a
  | icmp _ a _, .x => some a
  | icmp _ _ b, .y => some b
  | fcmp _ a _, .x => some a
  | fcmp _ _ b, .y => some b
  | phi _ incoming, .incomingValue i => incoming[i.toNat]?.map (·.value)
  | phi _ incoming, .incomingPred i => incoming[i.toNat]?.map (·.pred)
  | select c _ _, .cond => some c
  | select _ a _, .x => some a
  | select _ _ b, .y => some b
  | call _ f _ _ _, .callee => some f
  | call _ _ args _ _, .arg i => args[i.toNat]?
  | call _ _ _ bundles _, .bundleInput b i => readBundle bundles b i
  | vaArg l _, .argList => some l
  | landingpad _ _ clauses, .clause i => clauses[i.toNat]?.map (·.value)
  | catchpad s _, .scope => some s
  | catchpad _ args, .arg i => args[i.toNat]?
  | cleanuppad s _, .scope => some s
  | cleanuppad _ args, .arg i => args[i.toNat]?
  | _, _ => none

def write : Instruction → InstSlot → Value → Option Instruction
  | unary op _, .x, v => some (unary op v)
  | binary op _ b, .x, v => some (binary op v b)
  | binary op a _, .y, v => some (binary op a v)
  | bitwise op _ b, .x, v => some (bitwise op v b)
  | bitwise op a _, .y, v => some (bitwise op a v)
  | extractElement _ i, .x, v => some (extractElement v i)
  | extractElement a _, .index, v => some (extractElement a v)
  | insertElement _ e i, .x, v => some (insertElement v e i)
  | insertElement a _ i, .elem, v => some (insertElement a v i)
  | insertElement a e _, .index, v => some (insertElement a e v)
  | shuffleVector _ b m, .x, v => some (shuffleVector v b m)
  | shuffleVector a _ m, .y, v => some (shuffleVector a v m)
  | shuffleVector a b _, .mask, v => some (shuffleVector a b v)
  | extractValue _ is, .x, v => some (extractValue v is)
  | insertValue _ e is, .x, v => some (insertValue v e is)
  | insertValue a _ is, .elem, v => some (insertValue a v is)
  | alloca t (some _) s, .count, v => some (alloca t (some v) s)
  | load t _ w, .source, v => some (load t v w)
  | store _ d w, .source, v => some (store v d w)
  | store s _ w, .dest, v => some (store s v w)
  | cmpxchg _ e r o f, .pointer, v => some (cmpxchg v e r o f)
  | cmpxchg p _ r o f, .expected, v => some (cmpxchg p v r o f)
  | cmpxchg p e _ o f, .replacement, v => some (cmpxchg p e v o f)
  | atomicrmw op _ a o, .dest, v => some (atomicrmw op v a o)
  | atomicrmw op d _ o, .x, v => some (atomicrmw op d v o)
  | getElementPtr t _ is b, .source, v => some (getElementPtr t v is b)
  | getElementPtr t s is b, .pointerIndex i, v => (writeAt is i v).map (getElementPtr t s · b)
  | conversion op _ t, .converted, v => some (conversion op v t)
  | icmp p _ b, .x, v => some (icmp p v b)
  | icmp p a _, .y, v => some (icmp p a v)
  | fcmp p _ b, .x, v => some (fcmp p v b)
  | fcmp p a _, .y, v => some (fcmp p a v)
  | phi t incoming, .incomingValue i, v => do
    let edge ← incoming[i.toNat]?
    return phi t (incoming.set i.toNat { edge with value := v })
  | phi t incoming, .incomingPred i, v => do
    let edge ← incoming[i.toNat]?
    return phi t (incoming.set i.toNat { edge with pred := v })
  | select _ a b, .cond, v => some (select v a b)
  | select c _ b, .x, v => some (select c v b)
  | select c a _, .y, v => some (select c a v)
  | call t _ args bundles tail, .callee, v => some (call t v args bundles tail)
  | call t f args bundles tail, .arg i, v => (writeAt args i v).map (call t f · bundles tail)
  | call t f args bundles tail, .bundleInput b i, v =>
    (writeBundle bundles b i v).map (call t f args · tail)
  | vaArg _ t, .argList, v => some (vaArg v t)
  | landingpad t cleanup clauses, .clause i, v => do
    let c ← clauses[i.toNat]?
    return landingpad t cleanup (clauses.set i.toNat { c with value := v })
  | catchpad _ args, .scope, v => some (catchpad v args)
  | catchpad s args, .arg i, v => (writeAt args i v).map (catchpad s)
  | cleanuppad _ args, .scope, v => some (cleanuppad v args)
  | cleanuppad s args, .arg i, v => (writeAt args i v).map (cleanuppad s)
  | _, _, _ => none

end Instruction

end IrGraph
