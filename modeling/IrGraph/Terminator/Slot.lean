import IrGraph.Instruction.Slot
import IrGraph.Terminator.Basic

/-! Operand slots of a terminator, listed, read and written like those of an instruction. -/

namespace IrGraph

inductive TermSlot
  | x
  | target
  | cond
  | targetTrue
  | targetFalse
  | targetDefault
  | caseValue (i : UInt32)
  | caseTarget (i : UInt32)
  | address
  | validTarget (i : UInt32)
  | invokee
  | callee
  | arg (i : UInt32)
  | normal
  | exception
  | other (i : UInt32)
  | bundleInput (bundle input : UInt32)
  | scope
  | handler (i : UInt32)
  | unwindTarget
  | exited
  | continued
  deriving DecidableEq, Repr

namespace TermSlot

def parts : TermSlot → String × List Nat
  | x => ("X", [])
  | target => ("Target", [])
  | cond => ("Cond", [])
  | targetTrue => ("TargetTrue", [])
  | targetFalse => ("TargetFalse", [])
  | targetDefault => ("TargetDefault", [])
  | caseValue i => ("CaseX", [i.toNat])
  | caseTarget i => ("CaseTarget", [i.toNat])
  | address => ("Addr", [])
  | validTarget i => ("ValidTarget", [i.toNat])
  | invokee => ("Invokee", [])
  | callee => ("Callee", [])
  | arg i => ("Arg", [i.toNat])
  | normal => ("Normal", [])
  | exception => ("Exception", [])
  | other i => ("Other", [i.toNat])
  | bundleInput bundle input => ("BundleInput", [bundle.toNat, input.toNat])
  | scope => ("Scope", [])
  | handler i => ("Handler", [i.toNat])
  | unwindTarget => ("UnwindTarget", [])
  | exited => ("From", [])
  | continued => ("To", [])

def ofParts? : String → List Nat → Option TermSlot
  | "X", [] => some x
  | "Target", [] => some target
  | "Cond", [] => some cond
  | "TargetTrue", [] => some targetTrue
  | "TargetFalse", [] => some targetFalse
  | "TargetDefault", [] => some targetDefault
  | "CaseX", [i] => some (caseValue i.toUInt32)
  | "CaseTarget", [i] => some (caseTarget i.toUInt32)
  | "Addr", [] => some address
  | "ValidTarget", [i] => some (validTarget i.toUInt32)
  | "Invokee", [] => some invokee
  | "Callee", [] => some callee
  | "Arg", [i] => some (arg i.toUInt32)
  | "Normal", [] => some normal
  | "Exception", [] => some exception
  | "Other", [i] => some (other i.toUInt32)
  | "BundleInput", [bundle, input] => some (bundleInput bundle.toUInt32 input.toUInt32)
  | "Scope", [] => some scope
  | "Handler", [i] => some (handler i.toUInt32)
  | "UnwindTarget", [] => some unwindTarget
  | "From", [] => some exited
  | "To", [] => some continued
  | _, _ => none

def text (s : TermSlot) : String :=
  slotText s.parts

end TermSlot

namespace Terminator

open TermSlot in
/-- Every operand with its slot, in operand order. -/
def operands : Terminator → List (TermSlot × Value)
  | ret a => a.toList.map fun v => (x, v)
  | br t => [(target, t)]
  | condbr c t f => [(cond, c), (targetTrue, t), (targetFalse, f)]
  | switch a d cases =>
    (x, a) :: (targetDefault, d) ::
      (cases.mapIdx fun i c =>
        [(caseValue i.toUInt32, c.value), (caseTarget i.toUInt32, c.target)]).flatten
  | indirectbr a targets => (address, a) :: targets.mapIdx fun i v => (validTarget i.toUInt32, v)
  | invoke _ f args n e bundles =>
    (invokee, f) :: (args.mapIdx fun i v => (arg i.toUInt32, v)) ++ [(normal, n), (exception, e)] ++
      bundleOperands bundleInput bundles
  | callbr _ f args n others bundles =>
    (callee, f) :: (args.mapIdx fun i v => (arg i.toUInt32, v)) ++ [(normal, n)] ++
      (others.mapIdx fun i v => (other i.toUInt32, v)) ++ bundleOperands bundleInput bundles
  | resume a => [(x, a)]
  | catchswitch s handlers u =>
    (scope, s) :: (handlers.mapIdx fun i v => (handler i.toUInt32, v)) ++
      u.toList.map fun v => (unwindTarget, v)
  | catchret p t => [(exited, p), (continued, t)]
  | cleanupret p u => (exited, p) :: u.toList.map fun v => (unwindTarget, v)
  | unreachable => []

def read : Terminator → TermSlot → Option Value
  | ret a, .x => a
  | br t, .target => some t
  | condbr c _ _, .cond => some c
  | condbr _ t _, .targetTrue => some t
  | condbr _ _ f, .targetFalse => some f
  | switch a _ _, .x => some a
  | switch _ d _, .targetDefault => some d
  | switch _ _ cases, .caseValue i => cases[i.toNat]?.map (·.value)
  | switch _ _ cases, .caseTarget i => cases[i.toNat]?.map (·.target)
  | indirectbr a _, .address => some a
  | indirectbr _ targets, .validTarget i => targets[i.toNat]?
  | invoke _ f _ _ _ _, .invokee => some f
  | invoke _ _ args _ _ _, .arg i => args[i.toNat]?
  | invoke _ _ _ n _ _, .normal => some n
  | invoke _ _ _ _ e _, .exception => some e
  | invoke _ _ _ _ _ bundles, .bundleInput b i => readBundle bundles b i
  | callbr _ f _ _ _ _, .callee => some f
  | callbr _ _ args _ _ _, .arg i => args[i.toNat]?
  | callbr _ _ _ n _ _, .normal => some n
  | callbr _ _ _ _ others _, .other i => others[i.toNat]?
  | callbr _ _ _ _ _ bundles, .bundleInput b i => readBundle bundles b i
  | resume a, .x => some a
  | catchswitch s _ _, .scope => some s
  | catchswitch _ handlers _, .handler i => handlers[i.toNat]?
  | catchswitch _ _ u, .unwindTarget => u
  | catchret p _, .exited => some p
  | catchret _ t, .continued => some t
  | cleanupret p _, .exited => some p
  | cleanupret _ u, .unwindTarget => u
  | _, _ => none

def write : Terminator → TermSlot → Value → Option Terminator
  | ret (some _), .x, v => some (ret (some v))
  | br _, .target, v => some (br v)
  | condbr _ t f, .cond, v => some (condbr v t f)
  | condbr c _ f, .targetTrue, v => some (condbr c v f)
  | condbr c t _, .targetFalse, v => some (condbr c t v)
  | switch _ d cases, .x, v => some (switch v d cases)
  | switch a _ cases, .targetDefault, v => some (switch a v cases)
  | switch a d cases, .caseValue i, v => do
    let c ← cases[i.toNat]?
    return switch a d (cases.set i.toNat { c with value := v })
  | switch a d cases, .caseTarget i, v => do
    let c ← cases[i.toNat]?
    return switch a d (cases.set i.toNat { c with target := v })
  | indirectbr _ targets, .address, v => some (indirectbr v targets)
  | indirectbr a targets, .validTarget i, v => (writeAt targets i v).map (indirectbr a)
  | invoke t _ args n e bundles, .invokee, v => some (invoke t v args n e bundles)
  | invoke t f args n e bundles, .arg i, v => (writeAt args i v).map (invoke t f · n e bundles)
  | invoke t f args _ e bundles, .normal, v => some (invoke t f args v e bundles)
  | invoke t f args n _ bundles, .exception, v => some (invoke t f args n v bundles)
  | invoke t f args n e bundles, .bundleInput b i, v =>
    (writeBundle bundles b i v).map (invoke t f args n e)
  | callbr t _ args n others bundles, .callee, v => some (callbr t v args n others bundles)
  | callbr t f args n others bundles, .arg i, v =>
    (writeAt args i v).map (callbr t f · n others bundles)
  | callbr t f args _ others bundles, .normal, v => some (callbr t f args v others bundles)
  | callbr t f args n others bundles, .other i, v =>
    (writeAt others i v).map (callbr t f args n · bundles)
  | callbr t f args n others bundles, .bundleInput b i, v =>
    (writeBundle bundles b i v).map (callbr t f args n others)
  | resume _, .x, v => some (resume v)
  | catchswitch _ handlers u, .scope, v => some (catchswitch v handlers u)
  | catchswitch s handlers u, .handler i, v => (writeAt handlers i v).map (catchswitch s · u)
  | catchswitch s handlers (some _), .unwindTarget, v => some (catchswitch s handlers (some v))
  | catchret _ t, .exited, v => some (catchret v t)
  | catchret p _, .continued, v => some (catchret p v)
  | cleanupret _ u, .exited, v => some (cleanupret v u)
  | cleanupret p (some _), .unwindTarget, v => some (cleanupret p (some v))
  | _, _, _ => none

end Terminator

end IrGraph
