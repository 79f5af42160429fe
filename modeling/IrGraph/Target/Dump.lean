import IrGraph.Target.Layout
import IrGraph.Target.Number

/-! A layout field by field, one value on a line, nested values further in. -/

namespace IrGraph

/-- Lines of a value that stands in another one. -/
abbrev Lines := List String

namespace Lines

/-- A value as a member of another one: further in, with a comma behind it. -/
def member : Lines → Lines
  | [] => []
  | [last] => ["    " ++ last ++ ","]
  | line :: rest => ("    " ++ line) :: member rest

def bracketed (start stop : String) (members : List Lines) : Lines :=
  if members.isEmpty then [start ++ stop]
  else [start] ++ members.flatMap member ++ [stop]

def labelled (label : String) : Lines → Lines
  | [] => []
  | line :: rest => (label ++ ": " ++ line) :: rest

def record (name : String) (fields : List (String × Lines)) : Lines :=
  bracketed (name ++ " \x7b") "\x7d" (fields.map fun f => labelled f.1 f.2)

def optional {α : Type} (dump : α → Lines) : Option α → Lines
  | some x => bracketed "Some(" ")" [dump x]
  | none => ["None"]

def bool (b : Bool) : Lines :=
  [if b then "true" else "false"]

def number (n : UInt64) : Lines :=
  [numberText n]

def numbers (ns : List UInt64) : Lines :=
  bracketed "[" "]" (ns.map number)

def table {α : Type} (dump : α → Lines) (t : Table α) : Lines :=
  bracketed "\x7b" "\x7d" (t.rows.map fun row => labelled (numberText row.1) (dump row.2))

end Lines

open Lines

def PointerSpec.dump (p : PointerSpec) : Lines :=
  record "PointerSpec" [("size", number p.size), ("abi", number p.abi), ("pref", number p.pref),
    ("index", number p.index)]

def AlignSpec.dump (a : AlignSpec) : Lines :=
  record "AlignSpec" [("abi", number a.abi), ("pref", number a.pref)]

def FuncPointerAlign.dump (a : FuncPointerAlign) : Lines :=
  record "FunctionPointerAlign" [("independent", bool a.independent), ("abi", number a.abi)]

def Layout.dump (l : Layout) : Lines :=
  record "DataLayout"
    [("big_endian", bool l.bigEndian),
      ("stack_alignment", number l.stackAlignment),
      ("program_addr_space", number l.programAddrSpace),
      ("global_addr_space", number l.globalAddrSpace),
      ("alloca_addr_space", number l.allocaAddrSpace),
      ("pointers", table PointerSpec.dump l.pointers),
      ("integers", table AlignSpec.dump l.integers),
      ("vectors", table AlignSpec.dump l.vectors),
      ("floats", table AlignSpec.dump l.floats),
      ("aggregate", l.aggregate.dump),
      ("function_pointer", optional FuncPointerAlign.dump l.functionPointer),
      ("mangling", optional (fun m => [m.name]) l.mangling),
      ("native_int_widths", numbers l.nativeIntWidths),
      ("non_integral_addr_spaces", numbers l.nonIntegralAddrSpaces)]

end IrGraph
