/-! Numbers in a descriptor: an optional plus sign and ASCII digits, below `2 ^ 64`. -/

namespace IrGraph

inductive NumberError
  | empty
  | invalidDigit
  | tooLarge
  deriving DecidableEq, Repr

def NumberError.message : NumberError → String
  | empty => "cannot parse integer from empty string"
  | invalidDigit => "invalid digit found in string"
  | tooLarge => "number too large to fit in target type"

/-- Reads digits behind a number read so far. The first character that is no digit, or makes the
number too large, is the error. -/
def readDigits : UInt64 → List Char → Except NumberError UInt64
  | n, [] => .ok n
  | n, c :: rest =>
    if c.isDigit then
      let next := 10 * n.toNat + (c.toNat - 48)
      if next < UInt64.size then readDigits (UInt64.ofNat next) rest else .error .tooLarge
    else .error .invalidDigit

def readNumber : List Char → Except NumberError UInt64
  | [] => .error .empty
  | ['+'] => .error .invalidDigit
  | '+' :: digits => readDigits 0 digits
  | digits => readDigits 0 digits

def numberText (n : UInt64) : String :=
  toString n.toNat

end IrGraph
