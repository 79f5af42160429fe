import IrGraph.Target.Layout
import IrGraph.Target.Number

/-! The descriptor of a layout. Scalars that are zero, settings that are absent and lists that are
empty are left out. -/

namespace IrGraph.Layout

/-- A specification with the hyphen in front of it. -/
def specText (s : String) : String :=
  "-" ++ s

def scalarText (letter : String) (n : UInt64) : String :=
  if n = 0 then "" else specText (letter ++ numberText n)

def pointerText (row : UInt64 × PointerSpec) : String :=
  let (addrSpace, p) := row
  specText ("p" ++ (if addrSpace = 0 then "" else numberText addrSpace) ++ ":" ++
    numberText p.size ++ ":" ++ numberText p.abi ++ ":" ++ numberText p.pref ++ ":" ++
    numberText p.index)

def alignText (a : AlignSpec) : String :=
  ":" ++ numberText a.abi ++ ":" ++ numberText a.pref

def tableText (letter : String) (t : Table AlignSpec) : String :=
  String.join (t.rows.map fun row => specText (letter ++ numberText row.1 ++ alignText row.2))

def functionPointerText : Option FuncPointerAlign → String
  | some a => specText ((if a.independent then "Fi" else "Fn") ++ numberText a.abi)
  | none => ""

def manglingText : Option Mangling → String
  | some m => specText ("m:" ++ keyword m)
  | none => ""

def listText (start : String) (ns : List UInt64) : String :=
  if ns.isEmpty then "" else specText (start ++ ":".intercalate (ns.map numberText))

def text (l : Layout) : String :=
  (if l.bigEndian then "E" else "e") ++ scalarText "S" l.stackAlignment ++
    scalarText "P" l.programAddrSpace ++ scalarText "G" l.globalAddrSpace ++
    scalarText "A" l.allocaAddrSpace ++ String.join (l.pointers.rows.map pointerText) ++
    tableText "i" l.integers ++ tableText "v" l.vectors ++ tableText "f" l.floats ++
    specText ("a" ++ alignText l.aggregate) ++ functionPointerText l.functionPointer ++
    manglingText l.mangling ++ listText "n" l.nativeIntWidths ++
    listText "ni:" l.nonIntegralAddrSpaces

end IrGraph.Layout
