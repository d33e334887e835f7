import Autodiff.CSource.Emit
import Autodiff.Scalar.Rules

/-!
# Reading straight-line C

A reader for functions whose body is a list of assignments to elements of arrays, and what such a body
computes. The text is cut into lexemes (`scan?`), and the grammar is read by recursive descent: a choice binds
weaker than sums, sums weaker than products, products weaker than a sign (`expression`). Where C has no meaning
the reader or the run fails: an unknown name, an index outside of its array, an assignment to an input.

What a numeric constant means depends on the type of the values, so it is a parameter of a run.
-/

namespace Autodiff.CSource

/-! ## Lexemes -/

/-- Names, numbers as they are spelled, and single characters. -/
inductive Lexeme where
  | name (text : String)
  | number (text : String)
  | symbol (char : Char)
deriving DecidableEq, Repr

def isNameStart (char : Char) : Bool :=
  char.isAlpha || char == '_'

def isOperator (char : Char) : Bool :=
  "+-*/%<>=!&|^~?:".toList.contains char

/-- Whether a word goes on with a character. A number has points, and signs after the mark of an exponent. -/
def continues (isNumber : Bool) (last char : Char) : Bool :=
  char.isAlphanum || char == '_' ||
    isNumber && (char == '.' || (last == 'e' || last == 'E') && (char == '+' || char == '-'))

def wordAfter (isNumber : Bool) : Char → List Char → List Char
  | _, [] => []
  | last, char :: rest =>
    if continues isNumber last char then char :: wordAfter isNumber char rest else []

/-- The lexemes of a text. Two operators side by side are refused: they may be one operator of C, or the start of
a comment. -/
def scan? (text : List Char) : Option (List Lexeme) :=
  match text with
  | [] => some []
  | char :: rest =>
    if char.isWhitespace then scan? rest
    else if isNameStart char then
      let word := wordAfter false char rest
      (scan? (rest.drop word.length)).map (.name (String.ofList (char :: word)) :: ·)
    else if char.isDigit then
      let word := wordAfter true char rest
      (scan? (rest.drop word.length)).map (.number (String.ofList (char :: word)) :: ·)
    else if isOperator char && rest.head?.any isOperator then none
    else (scan? rest).map (.symbol char :: ·)
termination_by text.length

/-! ## Syntax -/

/-- The parameters of a function: inputs, outputs and scratch space. -/
inductive ArrayName where
  | x | y | w
deriving DecidableEq, Repr

inductive Expression where
  /-- A number as it is spelled, its type suffix left out. -/
  | number (text : String)
  | element (array : ArrayName) (index : Nat)
  | unary (op : UnaryOp) (operand : Expression)
  | binary (op : BinaryOp) (lhs rhs : Expression)
  /-- The first branch if one expression is less than the other. -/
  | choice (smaller larger yes no : Expression)
deriving DecidableEq, Repr

structure Assignment where
  array : ArrayName
  index : Nat
  value : Expression
deriving DecidableEq, Repr

/-! ## Reading -/

/-- A reader takes what it reads from the front of a list. -/
abbrev Reader (σ : Type) := StateT (List σ) Option

def expect {σ : Type} [DecidableEq σ] (expected : List σ) : Reader σ Unit := fun input =>
  if expected.isPrefixOf input then some ((), input.drop expected.length) else none

def next {σ : Type} : Reader σ σ := fun input =>
  input.head?.map (·, input.tail)

/-- The number with a given decimal spelling; leading zeros would make it an octal number. -/
def decimal? (spelling : String) : Option Nat :=
  let number := Nat.ofDigitChars 10 spelling.toList 0
  if toString number = spelling then some number else none

def arrayNamed? : String → Option ArrayName
  | "x" => some .x
  | "y" => some .y
  | "w" => some .w
  | _ => none

def earlyFunctions : List (String × Opcode) :=
  [("acos", .unary .acos), ("asin", .unary .asin), ("atan", .unary .atan), ("atan2", .binary .atan2),
    ("cos", .unary .cos), ("sin", .unary .sin), ("tan", .unary .tan), ("cosh", .unary .cosh),
    ("sinh", .unary .sinh), ("tanh", .unary .tanh), ("exp", .unary .exp), ("log", .unary .ln),
    ("pow", .binary .pow), ("sqrt", .unary .sqrt), ("ceil", .unary .ceil), ("fabs", .unary .abs),
    ("floor", .unary .floor)]

/-- The functions that C99 adds. -/
def laterFunctions : List (String × Opcode) :=
  [("acosh", .unary .acosh), ("asinh", .unary .asinh), ("atanh", .unary .atanh), ("expm1", .unary .expM1),
    ("log1p", .unary .ln1p), ("cbrt", .unary .cbrt), ("hypot", .binary .hypot), ("round", .unary .round),
    ("trunc", .unary .trunc), ("fmax", .binary .fmax), ("fmin", .binary .fmin)]

/-- What the names of functions for the different types end in. -/
def typeSuffixes : Dialect → List String
  | .c89 => [""]
  | .c99 => ["", "f", "l"]

def functions (dialect : Dialect) : List (String × Opcode) :=
  let known := match dialect with
    | .c89 => earlyFunctions
    | .c99 => earlyFunctions ++ laterFunctions
  known.flatMap fun (name, op) => (typeSuffixes dialect).map fun suffix => (name ++ suffix, op)

/-- A number without the suffix for its type. -/
def withoutSuffix (spelling : String) : String :=
  if spelling.toList.getLast?.any (['f', 'F', 'l', 'L'].contains ·) then String.ofList spelling.toList.dropLast
  else spelling

def indexed (name : String) : Reader Lexeme (ArrayName × Nat) := do
  let array ← liftM (arrayNamed? name)
  match ← next with
  | .number spelling =>
    let index ← liftM (decimal? spelling)
    expect [.symbol ']']
    return (array, index)
  | _ => failure

def called (dialect : Dialect) (nested : Reader Lexeme Expression) (name : String) : Reader Lexeme Expression := do
  match ← liftM ((functions dialect).lookup name) with
  | .unary op =>
    let operand ← nested
    expect [.symbol ')']
    return .unary op operand
  | .binary op =>
    let lhs ← nested
    expect [.symbol ',']
    let rhs ← nested
    expect [.symbol ')']
    return .binary op lhs rhs
  | .const => failure

def primary (dialect : Dialect) (nested : Reader Lexeme Expression) : Reader Lexeme Expression := do
  match ← next with
  | .number spelling => return .number (withoutSuffix spelling)
  | .symbol '(' =>
    let inner ← nested
    expect [.symbol ')']
    return inner
  | .name name =>
    match ← next with
    | .symbol '[' =>
      let (array, index) ← indexed name
      return .element array index
    | .symbol '(' => called dialect nested name
    | _ => failure
  | _ => failure

/-- Reads an operand with at most one sign in front; two signs would be another operator. -/
def withSign (operand : Reader Lexeme Expression) : Reader Lexeme Expression := do
  match (← get).head? with
  | some (.symbol '-') =>
    expect [.symbol '-']
    return .unary .neg (← operand)
  | _ => operand

/-- Reads the operators and operands that follow a first operand, the left ones bound first. -/
def chain (operator? : Lexeme → Option BinaryOp) (operand : Reader Lexeme Expression) :
    Nat → Expression → Reader Lexeme Expression
  | 0, _ => failure
  | fuel + 1, lhs => do
    match (← get).head?.bind operator? with
    | some op =>
      let _ ← next
      let rhs ← operand
      chain operator? operand fuel (.binary op lhs rhs)
    | none => return lhs

def product? : Lexeme → Option BinaryOp
  | .symbol '*' => some .mul
  | .symbol '/' => some .div
  | _ => none

def sum? : Lexeme → Option BinaryOp
  | .symbol '+' => some .add
  | .symbol '-' => some .sub
  | _ => none

def product (dialect : Dialect) (nested : Reader Lexeme Expression) (fuel : Nat) : Reader Lexeme Expression := do
  let operand := withSign (primary dialect nested)
  chain product? operand fuel (← operand)

def sum (dialect : Dialect) (nested : Reader Lexeme Expression) (fuel : Nat) : Reader Lexeme Expression := do
  let operand := product dialect nested fuel
  chain sum? operand fuel (← operand)

/-- The choice that a comparison makes, from what stands before and behind it and the branches. -/
def comparison? : Lexeme → Option (Expression → Expression → Expression → Expression → Expression)
  | .symbol '<' => some .choice
  | .symbol '>' => some fun larger smaller => .choice smaller larger
  | _ => none

/-- Reads an expression. A comparison has to be the condition of a choice. -/
def expression (dialect : Dialect) : Nat → Reader Lexeme Expression
  | 0 => failure
  | fuel + 1 => do
    let nested := expression dialect fuel
    let first ← sum dialect nested fuel
    match (← get).head?.bind comparison? with
    | some choose =>
      let _ ← next
      let second ← sum dialect nested fuel
      expect [.symbol '?']
      let yes ← nested
      expect [.symbol ':']
      let no ← nested
      return choose first second yes no
    | none => return first

def assignment (dialect : Dialect) : Reader Lexeme Assignment := do
  match ← next with
  | .name name =>
    expect [.symbol '[']
    let (array, index) ← indexed name
    expect [.symbol '=']
    let value ← expression dialect (← get).length
    expect [.symbol ';']
    return ⟨array, index, value⟩
  | _ => failure

def assignments (dialect : Dialect) : Nat → Reader Lexeme (List Assignment)
  | 0 => failure
  | fuel + 1 => do
    if (← get).head? = some (.symbol '\x7d') then
      expect [.symbol '\x7d']
      return []
    else
      let first ← assignment dialect
      return first :: (← assignments dialect fuel)

def readAll? {σ α : Type} (reader : Reader σ α) (input : List σ) : Option α :=
  match reader.run input with
  | some (value, []) => some value
  | _ => none

def readBody? (options : CodeOptions) (body : String) : Option (List Assignment) := do
  let ((), inside) ← (expect (Tape.signature options ++ " \x7b\n").toList).run body.toList
  let lexemes ← scan? inside
  readAll? (assignments options.dialect lexemes.length) lexemes

structure Lengths where
  x : Nat
  y : Nat
  w : Nat
deriving DecidableEq, Repr

def declaredLength (options : CodeOptions) (ending : String) : Reader Char Nat := do
  expect ("#define " ++ uppercase options.functionName ++ ending ++ " ").toList
  let digits := (← get).takeWhile Char.isDigit
  expect digits
  expect ['\n']
  liftM (decimal? (String.ofList digits))

def declarations (options : CodeOptions) : Reader Char Lengths := do
  expect "#include <math.h>\n\n".toList
  let x ← declaredLength options "_N_IN"
  let y ← declaredLength options "_N_OUT"
  let w ← declaredLength options "_SZ_W"
  expect ("\n" ++ Tape.signature options ++ ";\n").toList
  return ⟨x, y, w⟩

/-! ## Running -/

structure Memory (α : Type) where
  x : Array α
  y : Array α
  w : Array α

namespace Memory

variable {α : Type}

def array (memory : Memory α) : ArrayName → Array α
  | .x => memory.x
  | .y => memory.y
  | .w => memory.w

def replace (memory : Memory α) (contents : Array α) : ArrayName → Memory α
  | .x => { memory with x := contents }
  | .y => { memory with y := contents }
  | .w => { memory with w := contents }

/-- Stores a value inside of an array; inputs are constant. -/
def store? (memory : Memory α) (array : ArrayName) (index : Nat) (value : α) : Option (Memory α) :=
  if array ≠ .x ∧ index < (memory.array array).size then
    some (memory.replace ((memory.array array).setIfInBounds index value) array)
  else none

@[simp] theorem array_replace_self (memory : Memory α) (contents : Array α) (array : ArrayName) :
    (memory.replace contents array).array array = contents := by
  cases array <;> rfl

theorem array_replace_ne (memory : Memory α) (contents : Array α) {array other : ArrayName} (apart : other ≠ array) :
    (memory.replace contents array).array other = memory.array other := by
  cases array <;> cases other <;> simp_all [replace, Memory.array]

@[simp] theorem replace_replace (memory : Memory α) (contents contents' : Array α) (array : ArrayName) :
    (memory.replace contents array).replace contents' array = memory.replace contents' array := by
  cases array <;> rfl

@[simp] theorem replace_array (memory : Memory α) (array : ArrayName) :
    memory.replace (memory.array array) array = memory := by
  cases array <;> rfl

end Memory

section Run

variable {α : Type} [Scalar α] (constant : String → α)

def Expression.eval? (memory : Memory α) : Expression → Option α
  | .number text => some (constant text)
  | .element array index => (memory.array array)[index]?
  | .unary op operand => (operand.eval? memory).map op.apply
  | .binary op lhs rhs => do return op.apply (← lhs.eval? memory) (← rhs.eval? memory)
  | .choice smaller larger yes no => do
    if Scalar.less (← smaller.eval? memory) (← larger.eval? memory) then yes.eval? memory else no.eval? memory

def Assignment.run? (memory : Memory α) (assignment : Assignment) : Option (Memory α) := do
  memory.store? assignment.array assignment.index (← assignment.value.eval? constant memory)

def run? (program : List Assignment) (memory : Memory α) : Option (Memory α) :=
  program.foldlM (Assignment.run? constant) memory

end Run

/-! ## Bounds -/

def Lengths.of (lengths : Lengths) : ArrayName → Nat
  | .x => lengths.x
  | .y => lengths.y
  | .w => lengths.w

def Expression.elements : Expression → List (ArrayName × Nat)
  | .number _ => []
  | .element array index => [(array, index)]
  | .unary _ operand => operand.elements
  | .binary _ lhs rhs => lhs.elements ++ rhs.elements
  | .choice smaller larger yes no => smaller.elements ++ larger.elements ++ yes.elements ++ no.elements

/-- All elements that stand in an assignment are inside of their arrays. -/
def Assignment.Within (lengths : Lengths) (assignment : Assignment) : Prop :=
  ∀ element ∈ (assignment.array, assignment.index) :: assignment.value.elements, element.2 < lengths.of element.1

end Autodiff.CSource
