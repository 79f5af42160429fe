import IrGraph.Target.Layout
import IrGraph.Target.Number

/-! Descriptors of data layouts: specifications between hyphens, each of them a letter and fields
between colons. A specification that is not recognised has no effect. -/

namespace IrGraph

inductive LayoutError
  | invalidNumber (spec : String) (cause : NumberError)
  | missingField (spec : String)
  | unknownFunctionPointerKind (spec : String)
  | unknownMangling (spec : String)
  deriving DecidableEq, Repr

def LayoutError.message : LayoutError → String
  | invalidNumber spec cause =>
    "invalid number in data layout specification `" ++ spec ++ "`: " ++ cause.message
  | missingField spec => "data layout specification `" ++ spec ++ "` is missing a field"
  | unknownFunctionPointerKind spec =>
    "unknown function pointer alignment kind in `" ++ spec ++ "`, expected `Fi` or `Fn`"
  | unknownMangling spec => "unknown mangling style in `" ++ spec ++ "`"

inductive LayoutSpec
  | bigEndian (b : Bool)
  | stackAlignment (n : UInt64)
  | programAddrSpace (n : UInt64)
  | globalAddrSpace (n : UInt64)
  | allocaAddrSpace (n : UInt64)
  | pointer (addrSpace : UInt64) (p : PointerSpec)
  | integer (size : UInt64) (a : AlignSpec)
  | vector (size : UInt64) (a : AlignSpec)
  | float (size : UInt64) (a : AlignSpec)
  | aggregate (a : AlignSpec)
  | functionPointer (a : FuncPointerAlign)
  | mangling (m : Mangling)
  | nativeIntWidths (ns : List UInt64)
  | nonIntegralAddrSpaces (ns : List UInt64)
  | unrecognised
  deriving DecidableEq, Repr

/-- The parts of a text between separators, one more than there are separators. -/
def splitAtEach (separator : Char) : List Char → List (List Char)
  | [] => [[]]
  | c :: rest =>
    match splitAtEach separator rest with
    | [] => [[c]]
    | part :: parts => if c = separator then [] :: part :: parts else (c :: part) :: parts

namespace LayoutSpec

def number (spec digits : List Char) : Except LayoutError UInt64 :=
  match readNumber digits with
  | .ok n => .ok n
  | .error cause => .error (.invalidNumber (String.ofList spec) cause)

def required (spec : List Char) : Option (List Char) → Except LayoutError UInt64
  | some digits => number spec digits
  | none => .error (.missingField (String.ofList spec))

def optional (spec : List Char) (absent : UInt64) : Option (List Char) → Except LayoutError UInt64
  | some digits => number spec digits
  | none => .ok absent

/-- Numbers between colons; empty entries do not count. -/
def numberList (spec text : List Char) : Except LayoutError (List UInt64) :=
  ((splitAtEach ':' text).filter (!·.isEmpty)).mapM (number spec)

/-- A required alignment and a preferred one, the same unless given. -/
def alignment (spec : List Char) (fields : List (List Char)) : Except LayoutError AlignSpec := do
  let abi ← required spec fields[0]?
  let pref ← optional spec abi fields[1]?
  return ⟨abi, pref⟩

def pointerSpec (spec : List Char) (fields : List (List Char)) :
    Except LayoutError PointerSpec := do
  let size ← required spec fields[0]?
  let abi ← required spec fields[1]?
  let pref ← optional spec abi fields[2]?
  let index ← optional spec size fields[3]?
  return ⟨size, abi, pref, index⟩

/-- Reads a specification: the letter, the rest of the first field, and the other fields. -/
def parse (spec : List Char) : Except LayoutError LayoutSpec :=
  match spec with
  | [] => .ok .unrecognised
  | letter :: rest =>
    let parts := splitAtEach ':' rest
    let tag := parts.headD []
    let fields := parts.drop 1
    match letter with
    | 'e' => return if rest.isEmpty then .bigEndian false else .unrecognised
    | 'E' => return if rest.isEmpty then .bigEndian true else .unrecognised
    | 'S' => return .stackAlignment (← number spec rest)
    | 'P' => return .programAddrSpace (← number spec rest)
    | 'G' => return .globalAddrSpace (← number spec rest)
    | 'A' => return .allocaAddrSpace (← number spec rest)
    | 'p' => do
      let addrSpace ← if tag.isEmpty then pure 0 else number spec tag
      return .pointer addrSpace (← pointerSpec spec fields)
    | 'i' => do
      let size ← number spec tag
      return .integer size (← alignment spec fields)
    | 'v' => do
      let size ← number spec tag
      return .vector size (← alignment spec fields)
    | 'f' => do
      let size ← number spec tag
      return .float size (← alignment spec fields)
    | 'a' => return .aggregate (← alignment spec fields)
    | 'F' =>
      match rest with
      | 'i' :: digits => return .functionPointer ⟨true, ← number spec digits⟩
      | 'n' :: digits => return .functionPointer ⟨false, ← number spec digits⟩
      | _ => .error (.unknownFunctionPointerKind (String.ofList spec))
    | 'm' =>
      match fields with
      | [] => .error (.missingField (String.ofList spec))
      | style :: _ =>
        match ofKeyword? (String.ofList style) with
        | some m => .ok (.mangling m)
        | none => .error (.unknownMangling (String.ofList spec))
    | 'n' =>
      match rest with
      | 'i' :: list => return .nonIntegralAddrSpaces (← numberList spec list)
      | list => return .nativeIntWidths (← numberList spec list)
    | _ => .ok .unrecognised

end LayoutSpec

namespace Layout

def apply (l : Layout) : LayoutSpec → Layout
  | .bigEndian b => { l with bigEndian := b }
  | .stackAlignment n => { l with stackAlignment := n }
  | .programAddrSpace n => { l with programAddrSpace := n }
  | .globalAddrSpace n => { l with globalAddrSpace := n }
  | .allocaAddrSpace n => { l with allocaAddrSpace := n }
  | .pointer addrSpace p => { l with pointers := l.pointers.insert addrSpace p }
  | .integer size a => { l with integers := l.integers.insert size a }
  | .vector size a => { l with vectors := l.vectors.insert size a }
  | .float size a => { l with floats := l.floats.insert size a }
  | .aggregate a => { l with aggregate := a }
  | .functionPointer a => { l with functionPointer := some a }
  | .mangling m => { l with mangling := some m }
  | .nativeIntWidths ns => { l with nativeIntWidths := ns }
  | .nonIntegralAddrSpaces ns => { l with nonIntegralAddrSpaces := ns }
  | .unrecognised => l

/-- The defaults of a target, changed by each specification of the descriptor in turn. The first
specification that is malformed is the error. -/
def parse (descriptor os arch : String) : Except LayoutError Layout := do
  let specs ← (splitAtEach '-' descriptor.toList).mapM LayoutSpec.parse
  return specs.foldl apply (default os arch)

end Layout

end IrGraph
