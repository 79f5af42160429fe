import IrGraph.Graph.Create

/-! Constants made from plain data. A text is stored as its bytes with a zero byte behind them, or
behind their number. -/

namespace IrGraph.Graph

def addInt (g : Graph) (type : TypeRef) (value : Int) : Except Fault (ConstRef × Graph) :=
  g.addConst (.int type (BitVec.ofInt 128 value))

def addZero (g : Graph) (type : TypeRef) : Except Fault (ConstRef × Graph) := do
  match ← g.types.get type with
  | .int _ => g.addConst (.int type 0)
  | .float _ => g.addConst (.float type .zero)
  | _ => g.addConst (.zeroInitializer type)

def addBytes (g : Graph) (bytes : List UInt8) : Except Fault (ConstRef × Graph) :=
  let (byte, g) := g.intern (.int 8)
  let (type, g) := g.intern (.array bytes.length byte)
  g.addConst (.charArray type bytes)

def addCString (g : Graph) (s : String) : Except Fault (ConstRef × Graph) :=
  g.addBytes (utf8Bytes s ++ [0])

/-- Four bytes of a number, the highest first; what does not fit in them is dropped. -/
def bigEndian32 (n : Nat) : List UInt8 :=
  [UInt8.ofNat (n / 0x1000000), UInt8.ofNat (n / 0x10000), UInt8.ofNat (n / 0x100), UInt8.ofNat n]

def addPascalString (g : Graph) (s : String) : Except Fault (ConstRef × Graph) :=
  g.addBytes (bigEndian32 (utf8Bytes s).length ++ utf8Bytes s)

end IrGraph.Graph
