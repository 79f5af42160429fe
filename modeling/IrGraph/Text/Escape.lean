/-! Bytes in a quoted text. Printable ASCII stands for itself, except the quote and the
backslash; every other byte is a backslash and two uppercase hexadecimal digits. -/

namespace IrGraph

def isPlainByte (b : UInt8) : Bool :=
  0x20 ≤ b && b < 0x7f && b != 0x22 && b != 0x5c

def hexDigit (n : Nat) : Char :=
  if n < 10 then Char.ofNat (48 + n) else Char.ofNat (55 + n)

def escapeByte (b : UInt8) : List Char :=
  if isPlainByte b then [Char.ofNat b.toNat]
  else ['\\', hexDigit (b.toNat / 16), hexDigit (b.toNat % 16)]

def escape (bytes : List UInt8) : String :=
  String.ofList (bytes.flatMap escapeByte)

/-- Value of an uppercase hexadecimal digit. -/
def hexValue? (c : Char) : Option Nat :=
  if '0' ≤ c ∧ c ≤ '9' then some (c.toNat - 48)
  else if 'A' ≤ c ∧ c ≤ 'F' then some (c.toNat - 55)
  else none

/-- Reads an escaped text back; refuses a backslash without two digits, and a character that
no escaped text holds. -/
def unescape? : List Char → Option (List UInt8)
  | [] => some []
  | '\\' :: h :: l :: rest => do
    let high ← hexValue? h
    let low ← hexValue? l
    let bytes ← unescape? rest
    return UInt8.ofNat (16 * high + low) :: bytes
  | c :: rest =>
    if c.toNat < 0x80 ∧ isPlainByte (UInt8.ofNat c.toNat) then
      (unescape? rest).map (UInt8.ofNat c.toNat :: ·)
    else none

def utf8Bytes (s : String) : List UInt8 :=
  s.toUTF8.data.toList

def escapeText (s : String) : String :=
  escape (utf8Bytes s)

end IrGraph
