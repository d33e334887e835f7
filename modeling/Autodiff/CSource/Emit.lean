import Autodiff.CSource.Statement
import Autodiff.Tape.Basic
import Autodiff.Text.Uppercase

/-!
# Tapes as C source

A tape becomes a function `void f(const T* x, T* y, T* w)`: `x` holds all input entries, `y` all
output entries and `w` is scratch space of the length of the working array. The declarations define
these lengths as macros.
-/

namespace Autodiff

/-- Whether an operation can be written in a dialect: C89 lacks some library functions. -/
def Opcode.isSupported (op : Opcode) : Dialect → Bool
  | .c99 => true
  | .c89 =>
    match op with
    | .unary .cbrt | .unary .expM1 | .unary .ln1p | .unary .asinh | .unary .acosh | .unary .atanh
    | .unary .round | .unary .trunc | .binary .hypot | .binary .fmin | .binary .fmax => false
    | _ => true

structure GeneratedCode where
  declarations : String
  body : String
deriving DecidableEq, Repr

def Instruction.toC (instruction : Instruction) : CSource.Expr :=
  let first := CSource.Term.cell instruction.fst
  match instruction.op with
  | .const => .term (.number instruction.literal)
  | .unary op =>
    match op with
    | .neg => .negation instruction.fst
    | .recip => .arithmetic "/" (.number 1) first
    | .sq => .arithmetic "*" first first
    | .sign => .sign instruction.fst
    | op => .call op.mnemonic [instruction.fst]
  | .binary op =>
    match op.symbol? with
    | some symbol => .arithmetic symbol first (.cell instruction.snd)
    | none => .call op.mnemonic [instruction.fst, instruction.snd]

namespace Tape

def statements (tape : Tape) : List CSource.Statement :=
  (List.range tape.numInputNonzeros).map .loadInput ++
    tape.instructions.map (fun instruction => .assign instruction.out instruction.toC) ++
    (tape.outputs.flatMap Block.slots).zipIdx.map fun (slot, index) => .storeOutput index slot

def signature (options : CodeOptions) : String :=
  let name := options.functionName
  let real := options.realType
  "void " ++ name ++ "(const " ++ real ++ "* x, " ++ real ++ "* y, " ++ real ++ "* w)"

def lengthMacro (options : CodeOptions) (suffix : String) (length : Nat) : String :=
  "#define " ++ uppercase options.functionName ++ suffix ++ toString length ++ "\n"

/-- The C source of a tape. It fails on the first instruction whose operation the dialect
lacks. -/
def generateC (tape : Tape) (options : CodeOptions) : Except Error GeneratedCode := do
  match tape.instructions.find? fun instruction => !instruction.op.isSupported options.dialect with
  | some instruction => throw (.unsupported instruction.op options.dialect)
  | none =>
    return {
      declarations := "#include <math.h>\n\n" ++
        lengthMacro options "_N_IN " tape.numInputNonzeros ++
        lengthMacro options "_N_OUT " tape.numOutputNonzeros ++
        lengthMacro options "_SZ_W " tape.numSlots ++
        "\n" ++ signature options ++ ";\n"
      body := signature options ++ " \x7b\n" ++
        String.join (tape.statements.map (CSource.Statement.line options)) ++ "\x7d\n" }

end Tape

end Autodiff
