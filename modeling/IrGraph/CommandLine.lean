import IrGraph.Target.Descriptor
import IrGraph.Target.Dump
import IrGraph.Target.Text

/-! The command line: `layout <descriptor> [--os <os>] [--arch <arch>] [--dump]` prints a data
layout in its normal form. -/

namespace IrGraph.CommandLine

/-- What a program leaves behind. -/
structure Outcome where
  code : Nat
  stdout : String
  stderr : String
  deriving DecidableEq, Repr

/-- Arguments seen so far, each of them given at most once. -/
structure LayoutArgs where
  descriptor : Option String
  os : Option String
  arch : Option String
  dump : Bool
  deriving DecidableEq, Repr

namespace LayoutArgs

def setDescriptor (a : LayoutArgs) (s : String) : Option LayoutArgs :=
  if a.descriptor.isSome then none else some { a with descriptor := some s }

def setOs (a : LayoutArgs) (s : String) : Option LayoutArgs :=
  if a.os.isSome then none else some { a with os := some s }

def setArch (a : LayoutArgs) (s : String) : Option LayoutArgs :=
  if a.arch.isSome then none else some { a with arch := some s }

def setDump (a : LayoutArgs) : Option LayoutArgs :=
  if a.dump then none else some { a with dump := true }

end LayoutArgs

/-- Whether an argument can only be an option. A lone hyphen is no option. -/
def looksLikeOption (s : String) : Bool :=
  match s.toList with
  | '-' :: _ :: _ => true
  | _ => false

/-- What follows `start` in `s`. -/
def after? (start s : String) : Option String :=
  if start.toList.isPrefixOf s.toList then some (String.ofList (s.toList.drop start.length))
  else none

/-- Reads the arguments of `layout`; behind `--` every argument is a descriptor. -/
def readLayoutArgs (a : LayoutArgs) : List String → Option LayoutArgs
  | [] => some a
  | "--" :: rest => rest.foldlM LayoutArgs.setDescriptor a
  | "--dump" :: rest => do readLayoutArgs (← a.setDump) rest
  | "--os" :: value :: rest =>
    if looksLikeOption value then none else do readLayoutArgs (← a.setOs value) rest
  | "--arch" :: value :: rest =>
    if looksLikeOption value then none else do readLayoutArgs (← a.setArch value) rest
  | arg :: rest =>
    match after? "--os=" arg, after? "--arch=" arg with
    | some value, _ => do readLayoutArgs (← a.setOs value) rest
    | none, some value => do readLayoutArgs (← a.setArch value) rest
    | none, none =>
      if looksLikeOption arg then none else do readLayoutArgs (← a.setDescriptor arg) rest

def usage : Outcome :=
  ⟨2, "", "usage: layout <descriptor> [--os <os>] [--arch <arch>] [--dump]\n"⟩

def runLayout (descriptor os arch : String) (dump : Bool) : Outcome :=
  match Layout.parse descriptor os arch with
  | .ok l =>
    let lines := l.text :: if dump then l.dump else []
    ⟨0, String.join (lines.map (· ++ "\n")), ""⟩
  | .error e => ⟨1, "", "Error parsing data layout: " ++ e.message ++ "\n"⟩

def run : List String → Outcome
  | "layout" :: args =>
    match readLayoutArgs ⟨none, none, none, false⟩ args with
    | some ⟨some descriptor, os, arch, dump⟩ =>
      runLayout descriptor (os.getD "linux") (arch.getD "x86-64") dump
    | _ => usage
  | _ => usage

end IrGraph.CommandLine
