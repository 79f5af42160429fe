import IrGraph.Fault

/-! Types, each stored once. A table keeps the types in the order in which they were first asked
for, and an index from each type to its place, so that equal types have equal references. -/

namespace IrGraph

inductive FloatFormat
  | half
  | bfloat
  | single
  | double
  | extended
  | quad
  | doubleDouble
  deriving DecidableEq, Repr

namespace FloatFormat

def bits : FloatFormat → Nat
  | half | bfloat => 16
  | single => 32
  | double => 64
  | extended => 80
  | quad | doubleDouble => 128

end FloatFormat

instance : Keyword FloatFormat where
  all := [.half, .bfloat, .single, .double, .extended, .quad, .doubleDouble]
  keyword
    | .half => "half"
    | .bfloat => "bfloat"
    | .single => "float"
    | .double => "double"
    | .extended => "x86_fp80"
    | .quad => "fp128"
    | .doubleDouble => "ppc_fp128"
  find?_keyword a := by cases a <;> rfl
  isWord a := by cases a <;> rfl

/-- Place of a type in its table. -/
structure TypeRef where
  index : Nat
  deriving DecidableEq, Repr, Inhabited

def TypeRef.text (r : TypeRef) : String :=
  "ty" ++ toString r.index

inductive IrType
  | void
  | label
  | token
  | metadata
  | int (bits : Nat)
  | float (format : FloatFormat)
  | pointer (addrSpace : Nat)
  | vector (length : Nat) (elem : TypeRef) (scalable : Bool)
  | array (length : Nat) (elem : TypeRef)
  | struct (fields : List TypeRef) (packed : Bool)
  | func (result : TypeRef) (params : List TypeRef) (variadic : Bool)
  deriving DecidableEq, Repr

/-- The types that a type is built from. -/
def IrType.components : IrType → List TypeRef
  | .vector _ elem _ | .array _ elem => [elem]
  | .struct fields _ => fields
  | .func result params _ => result :: params
  | _ => []

structure TypeTable where
  entries : Array IrType
  index : List (IrType × TypeRef)
  deriving DecidableEq, Repr

namespace TypeTable

def get? (t : TypeTable) (r : TypeRef) : Option IrType :=
  t.entries[r.index]?

def get (t : TypeTable) (r : TypeRef) : Except Fault IrType :=
  match t.get? r with
  | some ty => .ok ty
  | none => .error (.outOfRange t.entries.size r.index)

/-- The place of a type, which is added at the end unless the table has it. -/
def intern (t : TypeTable) (ty : IrType) : TypeRef × TypeTable :=
  match t.index.lookup ty with
  | some r => (r, t)
  | none =>
    let r : TypeRef := ⟨t.entries.size⟩
    (r, ⟨t.entries.push ty, (ty, r) :: t.index⟩)

/-- The table that every graph starts with; its places are the constants below. -/
def initial : TypeTable :=
  [IrType.void, .label, .token, .metadata, .pointer 0].foldl (fun t ty => (t.intern ty).2) ⟨#[], []⟩

instance : Inhabited TypeTable := ⟨initial⟩

def isVoid (t : TypeTable) (r : TypeRef) : Except Fault Bool :=
  return (← t.get r) == .void

/-- Width of an integer type. -/
def intBits? (t : TypeTable) (r : TypeRef) : Except Fault (Option Nat) := do
  match ← t.get r with
  | .int bits => return some bits
  | _ => return none

theorem get_eq_ok_iff {t : TypeTable} {r : TypeRef} {ty : IrType} :
    t.get r = .ok ty ↔ t.get? r = some ty := by
  unfold get; split <;> simp_all

end TypeTable

namespace TypeRef

def void : TypeRef := ⟨0⟩
def label : TypeRef := ⟨1⟩
def token : TypeRef := ⟨2⟩
def metadata : TypeRef := ⟨3⟩
def pointer : TypeRef := ⟨4⟩

end TypeRef

end IrGraph
