import IrGraph.CommandLine

/-! The program. -/

open IrGraph

def main (args : List String) : IO UInt32 := do
  let outcome := CommandLine.run args
  IO.print outcome.stdout
  IO.eprint outcome.stderr
  return UInt32.ofNat outcome.code
