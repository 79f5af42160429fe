import IrGraph.Decimal.Shortest

/-! Double-precision numbers as their 64 bits, with the text of a literal: the shortest digits
that read back, with at least one decimal place, or scientific for very small and very large. -/

namespace IrGraph

structure Double where
  bits : UInt64
  deriving DecidableEq, Repr, Inhabited

namespace Double

def zero : Double := ⟨0⟩

def add (x y : Double) : Double :=
  ⟨(Float.ofBits x.bits + Float.ofBits y.bits).toBits⟩

def sub (x y : Double) : Double :=
  ⟨(Float.ofBits x.bits - Float.ofBits y.bits).toBits⟩

def mul (x y : Double) : Double :=
  ⟨(Float.ofBits x.bits * Float.ofBits y.bits).toBits⟩

def isNegative (x : Double) : Bool :=
  x.bits >>> 63 != 0

def exponentBits (x : Double) : Nat :=
  ((x.bits >>> 52) &&& 0x7ff).toNat

def fractionBits (x : Double) : Nat :=
  (x.bits &&& 0xfffffffffffff).toNat

/-- The leading bit of a mantissa, which is not stored: `2 ^ 52`. -/
def leadingBit : Nat :=
  0x10000000000000

/-- The magnitude of a finite number as `mantissa * 2 ^ exponent`. -/
def magnitude (x : Double) : Nat × Int :=
  if x.exponentBits = 0 then (x.fractionBits, -1074)
  else (leadingBit + x.fractionBits, x.exponentBits - 1075)

/-- The reals that round to a finite magnitude. Its neighbours are one unit away, except that
the one below a power of two counts as half a unit away, the smallest normal number included; a
half rounds to the even mantissa. -/
def interval (x : Double) : RoundingInterval :=
  let (mantissa, exponent) := x.magnitude
  let scale := Nat.pow 2 (exponent - 2).toNat
  { low := (4 * mantissa - if mantissa = leadingBit then 1 else 2) * scale
    middle := 4 * mantissa * scale
    high := (4 * mantissa + 2) * scale
    denominator := Nat.pow 2 (2 - exponent).toNat
    closed := mantissa % 2 = 0 }

/-- The shortest decimal of a finite magnitude other than zero. No double is as large as the
first grid and every double is a multiple of the last. -/
def shortest (x : Double) : Decimal :=
  (x.interval.shortestFrom 1400 309).getD ⟨0, 0⟩

/-- Exponents of the leading digit that are written with plain digits. -/
def isPositional (leading : Int) : Bool :=
  -4 ≤ leading ∧ leading < 16

def zeros (n : Nat) : String :=
  String.ofList (List.replicate n '0')

/-- Plain notation of digits whose first one stands for `10 ^ leading`. -/
def positional (digits : List Char) (leading : Int) : String :=
  if leading < 0 then
    "0." ++ zeros (-leading - 1).toNat ++ String.ofList digits
  else
    let whole := leading.toNat + 1
    if digits.length ≤ whole then
      String.ofList digits ++ zeros (whole - digits.length) ++ ".0"
    else
      String.ofList (digits.take whole) ++ "." ++ String.ofList (digits.drop whole)

def scientific (digits : List Char) (leading : Int) : String :=
  match digits with
  | [] => ""
  | [d] => String.singleton d ++ "e" ++ toString leading
  | d :: rest => String.singleton d ++ "." ++ String.ofList rest ++ "e" ++ toString leading

def magnitudeText (x : Double) : String :=
  if x.exponentBits = 0 ∧ x.fractionBits = 0 then "0.0"
  else
    let d := x.shortest
    let digits := (toString d.digits).toList
    let leading := d.exponent + digits.length - 1
    if isPositional leading then positional digits leading else scientific digits leading

/-- A NaN has no sign. -/
def text (x : Double) : String :=
  if x.exponentBits = 0x7ff then
    if x.fractionBits ≠ 0 then "NaN" else if x.isNegative then "-inf" else "inf"
  else if x.isNegative then "-" ++ x.magnitudeText else x.magnitudeText

end Double

end IrGraph
