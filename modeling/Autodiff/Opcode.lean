/-!
# Scalar operations

An opcode is one elementary scalar operation: a literal, a function of one operand or a
function of two operands. The expression graph, the tape and the C writer all consult the
facts collected here: arity, commutativity, smoothness, the treatment of structural zeros and
the printed names.
-/

namespace Autodiff

inductive UnaryOp where
  | neg | recip | sq | sqrt | cbrt
  | exp | expM1 | ln | ln1p
  | sin | cos | tan | asin | acos | atan
  | sinh | cosh | tanh | asinh | acosh | atanh
  | abs | sign | floor | ceil | round | trunc
deriving DecidableEq, Hashable, Repr

inductive BinaryOp where
  | add | sub | mul | div | pow | atan2 | hypot | fmin | fmax
deriving DecidableEq, Hashable, Repr

/-- One elementary scalar operation. A constant reads no operand and carries its value. -/
inductive Opcode where
  | const
  | unary (op : UnaryOp)
  | binary (op : BinaryOp)
deriving DecidableEq, Hashable, Repr

/-- How an operation treats structurally zero operands. -/
inductive ZeroRule where
  /-- The result is zero wherever the only operand is. -/
  | preserves
  /-- The result is zero where both operands are. -/
  | union
  /-- The result is zero where either operand is. -/
  | intersection
  /-- The result is zero where the left operand is absent and the right one is stored. -/
  | leftOperand
  /-- No structural zero survives. -/
  | dense
deriving DecidableEq, Repr

namespace ZeroRule

def all : List ZeroRule :=
  [.preserves, .union, .intersection, .leftOperand, .dense]

def ident : ZeroRule → String
  | .preserves => "Preserves"
  | .union => "Union"
  | .intersection => "Intersection"
  | .leftOperand => "LeftOperand"
  | .dense => "Dense"

def ofIdent? (name : String) : Option ZeroRule :=
  all.find? fun rule => rule.ident == name

end ZeroRule

namespace UnaryOp

def all : List UnaryOp :=
  [.neg, .recip, .sq, .sqrt, .cbrt, .exp, .expM1, .ln, .ln1p, .sin, .cos, .tan, .asin, .acos,
    .atan, .sinh, .cosh, .tanh, .asinh, .acosh, .atanh, .abs, .sign, .floor, .ceil, .round, .trunc]

/-- Whether `f 0 = 0`, so that structural zeros of the operand survive. -/
def preservesZero : UnaryOp → Bool
  | .recip | .exp | .ln | .cos | .acos | .cosh | .acosh => false
  | _ => true

/-- Operations with kinks or jumps. -/
def isNonsmooth : UnaryOp → Bool
  | .abs | .sign | .floor | .ceil | .round | .trunc => true
  | _ => false

def ident : UnaryOp → String
  | .neg => "Neg"
  | .recip => "Recip"
  | .sq => "Sq"
  | .sqrt => "Sqrt"
  | .cbrt => "Cbrt"
  | .exp => "Exp"
  | .expM1 => "ExpM1"
  | .ln => "Ln"
  | .ln1p => "Ln1p"
  | .sin => "Sin"
  | .cos => "Cos"
  | .tan => "Tan"
  | .asin => "Asin"
  | .acos => "Acos"
  | .atan => "Atan"
  | .sinh => "Sinh"
  | .cosh => "Cosh"
  | .tanh => "Tanh"
  | .asinh => "Asinh"
  | .acosh => "Acosh"
  | .atanh => "Atanh"
  | .abs => "Abs"
  | .sign => "Sign"
  | .floor => "Floor"
  | .ceil => "Ceil"
  | .round => "Round"
  | .trunc => "Trunc"

/-- The lower-case mnemonic, which for most operations is also the C library's name. -/
def mnemonic : UnaryOp → String
  | .neg => "neg"
  | .recip => "recip"
  | .sq => "sq"
  | .sqrt => "sqrt"
  | .cbrt => "cbrt"
  | .exp => "exp"
  | .expM1 => "expm1"
  | .ln => "log"
  | .ln1p => "log1p"
  | .sin => "sin"
  | .cos => "cos"
  | .tan => "tan"
  | .asin => "asin"
  | .acos => "acos"
  | .atan => "atan"
  | .sinh => "sinh"
  | .cosh => "cosh"
  | .tanh => "tanh"
  | .asinh => "asinh"
  | .acosh => "acosh"
  | .atanh => "atanh"
  | .abs => "fabs"
  | .sign => "sign"
  | .floor => "floor"
  | .ceil => "ceil"
  | .round => "round"
  | .trunc => "trunc"

end UnaryOp

namespace BinaryOp

def all : List BinaryOp :=
  [.add, .sub, .mul, .div, .pow, .atan2, .hypot, .fmin, .fmax]

/-- Operations whose operands are sorted before interning. -/
def isCommutative : BinaryOp → Bool
  | .add | .mul | .hypot | .fmin | .fmax => true
  | _ => false

/-- Operations with kinks. -/
def isNonsmooth : BinaryOp → Bool
  | .fmin | .fmax => true
  | _ => false

def zeroRule : BinaryOp → ZeroRule
  | .mul => .intersection
  | .div => .leftOperand
  | .pow => .dense
  | _ => .union

def ident : BinaryOp → String
  | .add => "Add"
  | .sub => "Sub"
  | .mul => "Mul"
  | .div => "Div"
  | .pow => "Pow"
  | .atan2 => "Atan2"
  | .hypot => "Hypot"
  | .fmin => "Fmin"
  | .fmax => "Fmax"

def mnemonic : BinaryOp → String
  | .add => "add"
  | .sub => "sub"
  | .mul => "mul"
  | .div => "div"
  | .pow => "pow"
  | .atan2 => "atan2"
  | .hypot => "hypot"
  | .fmin => "fmin"
  | .fmax => "fmax"

def symbol? : BinaryOp → Option String
  | .add => some "+"
  | .sub => some "-"
  | .mul => some "*"
  | .div => some "/"
  | _ => none

end BinaryOp

namespace Opcode

/-- All opcodes in declaration order: the constant, the binary and the unary operations. -/
def all : List Opcode :=
  .const :: (BinaryOp.all.map .binary ++ UnaryOp.all.map .unary)

def index (op : Opcode) : Nat :=
  all.idxOf op

def arity : Opcode → Nat
  | .const => 0
  | .unary _ => 1
  | .binary _ => 2

def isUnary : Opcode → Bool
  | .unary _ => true
  | _ => false

def isBinary : Opcode → Bool
  | .binary _ => true
  | _ => false

def isCommutative : Opcode → Bool
  | .binary op => op.isCommutative
  | _ => false

def isNonsmooth : Opcode → Bool
  | .const => false
  | .unary op => op.isNonsmooth
  | .binary op => op.isNonsmooth

def zeroRule : Opcode → ZeroRule
  | .const => .dense
  | .unary op => if op.preservesZero then .preserves else .dense
  | .binary op => op.zeroRule

/-- The identifier of an opcode, used in error texts and documents. -/
def ident : Opcode → String
  | .const => "Const"
  | .unary op => op.ident
  | .binary op => op.ident

/-- The lower-case mnemonic used in listings. -/
def mnemonic : Opcode → String
  | .const => "const"
  | .unary op => op.mnemonic
  | .binary op => op.mnemonic

def symbol? : Opcode → Option String
  | .binary op => op.symbol?
  | _ => none

def ofIdent? (name : String) : Option Opcode :=
  all.find? fun op => op.ident == name

end Opcode

end Autodiff
