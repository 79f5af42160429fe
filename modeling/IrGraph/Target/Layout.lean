import IrGraph.Target.Table
import IrGraph.Text.Keyword

/-! Data layout of a target machine: byte order, address spaces, and the sizes and alignments of
types. All sizes and alignments are in bits. -/

namespace IrGraph

structure PointerSpec where
  size : UInt64
  abi : UInt64
  pref : UInt64
  /-- Size of the index in address arithmetic. -/
  index : UInt64
  deriving DecidableEq, Repr

structure AlignSpec where
  abi : UInt64
  pref : UInt64
  deriving DecidableEq, Repr

/-- Alignment of function pointers, by itself or as a multiple of the function's alignment. -/
structure FuncPointerAlign where
  independent : Bool
  abi : UInt64
  deriving DecidableEq, Repr

/-- How the names of symbols are changed for a linker. -/
inductive Mangling
  | elf
  | mips
  | machO
  | winX86Coff
  | winCoff
  | xcoff
  deriving DecidableEq, Repr

namespace Mangling

instance : Keyword Mangling where
  all := [elf, mips, machO, winX86Coff, winCoff, xcoff]
  keyword
    | elf => "e"
    | mips => "m"
    | machO => "o"
    | winX86Coff => "x"
    | winCoff => "w"
    | xcoff => "a"
  find?_keyword a := by cases a <;> rfl
  isWord a := by cases a <;> rfl

def name : Mangling → String
  | elf => "Elf"
  | mips => "Mips"
  | machO => "MachO"
  | winX86Coff => "WinX86Coff"
  | winCoff => "WinCoff"
  | xcoff => "XCoff"

end Mangling

/-- Address space zero and stack alignment zero stand for "not given". -/
structure Layout where
  bigEndian : Bool
  stackAlignment : UInt64
  programAddrSpace : UInt64
  globalAddrSpace : UInt64
  allocaAddrSpace : UInt64
  /-- Pointers by address space. -/
  pointers : Table PointerSpec
  /-- Integers, vectors and floats by size. -/
  integers : Table AlignSpec
  vectors : Table AlignSpec
  floats : Table AlignSpec
  aggregate : AlignSpec
  functionPointer : Option FuncPointerAlign
  mangling : Option Mangling
  nativeIntWidths : List UInt64
  nonIntegralAddrSpaces : List UInt64
  deriving DecidableEq, Repr

namespace Layout

def defaultMangling (os : String) : Option Mangling :=
  if os = "linux" then some .elf
  else if "darwin".toList.isPrefixOf os.toList || "macosx".toList.isPrefixOf os.toList then
    some .machO
  else none

def defaultIntWidths (arch : String) : List UInt64 :=
  if arch = "x86-64" then [8, 16, 32, 64] else []

def default (os arch : String) : Layout where
  bigEndian := true
  stackAlignment := 0
  programAddrSpace := 0
  globalAddrSpace := 0
  allocaAddrSpace := 0
  pointers := .ofRows [(0, ⟨64, 64, 64, 64⟩)]
  integers := .ofRows [(1, ⟨8, 8⟩), (8, ⟨8, 8⟩), (16, ⟨16, 16⟩), (32, ⟨32, 32⟩), (64, ⟨32, 64⟩)]
  vectors := .ofRows [(64, ⟨64, 64⟩), (128, ⟨128, 128⟩)]
  floats := .ofRows [(16, ⟨16, 16⟩), (32, ⟨32, 32⟩), (64, ⟨64, 64⟩), (128, ⟨128, 128⟩)]
  aggregate := ⟨0, 64⟩
  functionPointer := none
  mangling := defaultMangling os
  nativeIntWidths := defaultIntWidths arch
  nonIntegralAddrSpaces := []

end Layout

end IrGraph
