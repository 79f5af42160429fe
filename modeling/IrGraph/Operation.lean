import IrGraph.Text.Keyword

/-! Operators, comparison predicates and memory orderings, each with the keyword it is written
with. Instructions and constant expressions share them. -/

namespace IrGraph

inductive UnaryOp
  | fneg
  deriving DecidableEq, Repr

instance : Keyword UnaryOp where
  all := [.fneg]
  keyword
    | .fneg => "fneg"
  find?_keyword | .fneg => rfl
  isWord | .fneg => rfl

inductive BinaryOp
  | add
  | fadd
  | sub
  | fsub
  | mul
  | fmul
  | udiv
  | sdiv
  | fdiv
  | urem
  | srem
  | frem
  deriving DecidableEq, Repr

instance : Keyword BinaryOp where
  all := [.add, .fadd, .sub, .fsub, .mul, .fmul, .udiv, .sdiv, .fdiv, .urem, .srem, .frem]
  keyword
    | .add => "add"
    | .fadd => "fadd"
    | .sub => "sub"
    | .fsub => "fsub"
    | .mul => "mul"
    | .fmul => "fmul"
    | .udiv => "udiv"
    | .sdiv => "sdiv"
    | .fdiv => "fdiv"
    | .urem => "urem"
    | .srem => "srem"
    | .frem => "frem"
  find?_keyword a := by cases a <;> rfl
  isWord a := by cases a <;> rfl

inductive BitwiseOp
  | shl
  | lshr
  | ashr
  | and
  | or
  | xor
  deriving DecidableEq, Repr

instance : Keyword BitwiseOp where
  all := [.shl, .lshr, .ashr, .and, .or, .xor]
  keyword
    | .shl => "shl"
    | .lshr => "lshr"
    | .ashr => "ashr"
    | .and => "and"
    | .or => "or"
    | .xor => "xor"
  find?_keyword a := by cases a <;> rfl
  isWord a := by cases a <;> rfl

inductive ConversionOp
  | trunc
  | zext
  | sext
  | fptrunc
  | fpext
  | fptoui
  | fptosi
  | uitofp
  | sitofp
  | ptrtoint
  | inttoptr
  | bitcast
  | addrspacecast
  deriving DecidableEq, Repr

instance : Keyword ConversionOp where
  all := [.trunc, .zext, .sext, .fptrunc, .fpext, .fptoui, .fptosi, .uitofp, .sitofp, .ptrtoint,
    .inttoptr, .bitcast, .addrspacecast]
  keyword
    | .trunc => "trunc"
    | .zext => "zext"
    | .sext => "sext"
    | .fptrunc => "fptrunc"
    | .fpext => "fpext"
    | .fptoui => "fptoui"
    | .fptosi => "fptosi"
    | .uitofp => "uitofp"
    | .sitofp => "sitofp"
    | .ptrtoint => "ptrtoint"
    | .inttoptr => "inttoptr"
    | .bitcast => "bitcast"
    | .addrspacecast => "addrspacecast"
  find?_keyword a := by cases a <;> rfl
  isWord a := by cases a <;> rfl

inductive IntPredicate
  | eq
  | ne
  | sgt
  | sge
  | slt
  | sle
  | ugt
  | uge
  | ult
  | ule
  deriving DecidableEq, Repr

instance : Keyword IntPredicate where
  all := [.eq, .ne, .sgt, .sge, .slt, .sle, .ugt, .uge, .ult, .ule]
  keyword
    | .eq => "eq"
    | .ne => "ne"
    | .sgt => "sgt"
    | .sge => "sge"
    | .slt => "slt"
    | .sle => "sle"
    | .ugt => "ugt"
    | .uge => "uge"
    | .ult => "ult"
    | .ule => "ule"
  find?_keyword a := by cases a <;> rfl
  isWord a := by cases a <;> rfl

/-- Ordered predicates fail on a NaN, unordered ones hold. -/
inductive FloatPredicate
  | never
  | oeq
  | ogt
  | oge
  | olt
  | ole
  | one
  | ord
  | ueq
  | ugt
  | uge
  | ult
  | ule
  | une
  | uno
  | always
  deriving DecidableEq, Repr

instance : Keyword FloatPredicate where
  all := [.never, .oeq, .ogt, .oge, .olt, .ole, .one, .ord, .ueq, .ugt, .uge, .ult, .ule, .une,
    .uno, .always]
  keyword
    | .never => "false"
    | .oeq => "oeq"
    | .ogt => "ogt"
    | .oge => "oge"
    | .olt => "olt"
    | .ole => "ole"
    | .one => "one"
    | .ord => "ord"
    | .ueq => "ueq"
    | .ugt => "ugt"
    | .uge => "uge"
    | .ult => "ult"
    | .ule => "ule"
    | .une => "une"
    | .uno => "uno"
    | .always => "true"
  find?_keyword a := by cases a <;> rfl
  isWord a := by cases a <;> rfl

/-- Read-modify-write operations. -/
inductive AtomicOp
  | xchg
  | add
  | sub
  | and
  | nand
  | or
  | xor
  | max
  | min
  | umax
  | umin
  | fadd
  | fsub
  deriving DecidableEq, Repr

instance : Keyword AtomicOp where
  all := [.xchg, .add, .sub, .and, .nand, .or, .xor, .max, .min, .umax, .umin, .fadd, .fsub]
  keyword
    | .xchg => "xchg"
    | .add => "add"
    | .sub => "sub"
    | .and => "and"
    | .nand => "nand"
    | .or => "or"
    | .xor => "xor"
    | .max => "max"
    | .min => "min"
    | .umax => "umax"
    | .umin => "umin"
    | .fadd => "fadd"
    | .fsub => "fsub"
  find?_keyword a := by cases a <;> rfl
  isWord a := by cases a <;> rfl

inductive MemoryOrdering
  | unordered
  | monotonic
  | acquire
  | release
  | acqRel
  | seqCst
  deriving DecidableEq, Repr

instance : Keyword MemoryOrdering where
  all := [.unordered, .monotonic, .acquire, .release, .acqRel, .seqCst]
  keyword
    | .unordered => "unordered"
    | .monotonic => "monotonic"
    | .acquire => "acquire"
    | .release => "release"
    | .acqRel => "acq_rel"
    | .seqCst => "seq_cst"
  find?_keyword a := by cases a <;> rfl
  isWord a := by cases a <;> rfl

end IrGraph
