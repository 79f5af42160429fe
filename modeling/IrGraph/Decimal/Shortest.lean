/-! Shortest decimals. Among the decimals that read back as a given number, the ones on the
coarsest power-of-ten grid are the shortest; of those the nearest to the number is taken. All
arithmetic is exact, with powers of ten as fractions. -/

namespace IrGraph

structure Decimal where
  digits : Nat
  exponent : Int
  deriving DecidableEq, Repr

/-- The fractions that read back as `middle`: those from `low` to `high`, all over one
denominator. The two ends belong to them if `closed`. -/
structure RoundingInterval where
  low : Nat
  middle : Nat
  high : Nat
  denominator : Nat
  closed : Bool
  deriving DecidableEq, Repr

namespace RoundingInterval

def powerOfTen (exponent : Int) : Nat × Nat :=
  (Nat.pow 10 exponent.toNat, Nat.pow 10 (-exponent).toNat)

def floorAt (i : RoundingInterval) (exponent : Int) : Nat :=
  let (a, b) := powerOfTen exponent
  i.middle * b / (i.denominator * a)

def contains (i : RoundingInterval) (d : Decimal) : Bool :=
  let (a, b) := powerOfTen d.exponent
  let point := d.digits * a * i.denominator
  if i.closed then i.low * b ≤ point ∧ point ≤ i.high * b
  else i.low * b < point ∧ point < i.high * b

def nearerBelow (i : RoundingInterval) (exponent : Int) : Bool :=
  let (a, b) := powerOfTen exponent
  2 * i.middle * b < (2 * i.floorAt exponent + 1) * a * i.denominator

/-- The multiple of `10 ^ exponent` that lies in the interval nearest to its middle, the upper
one if two are equally near. -/
def nearest? (i : RoundingInterval) (exponent : Int) : Option Decimal :=
  let below : Decimal := ⟨i.floorAt exponent, exponent⟩
  let above : Decimal := ⟨i.floorAt exponent + 1, exponent⟩
  match i.contains below, i.contains above with
  | false, false => none
  | true, false => some below
  | false, true => some above
  | true, true => some (if i.nearerBelow exponent then below else above)

def shortestFrom (i : RoundingInterval) : Nat → Int → Option Decimal
  | 0, exponent => i.nearest? exponent
  | finer + 1, exponent =>
    match i.nearest? exponent with
    | some d => some d
    | none => i.shortestFrom finer (exponent - 1)

end RoundingInterval

end IrGraph
