import Autodiff.Handle
import Autodiff.Opcode
import Autodiff.Options

/-!
# Errors

Every way in which a call can fail is a constructor that carries its cause; the wording stands
in one place, `Error.message`. A `Violation` is different from the other causes: the caller broke
a precondition that the call does not report on, so it has no text.
-/

namespace Autodiff

inductive PatternFlaw where
  | pointerCount (found expected : Nat)
  | pointerEnds
  | pointerDecreases (column : Nat)
  | rowsUnordered (column : Nat)
  | rowOutOfRange (column : Nat)
  | entryOutside (row column nrow ncol : Nat)
  | entryCount (found expected : Nat)
deriving DecidableEq, Repr

inductive Side where
  | input | output
deriving DecidableEq, Repr

inductive TapeFlaw where
  | slotCount (side : Side) (block found expected : Nat)
  | inputNotContiguous (block : Nat)
  | extraOperands (instruction : Nat)
  | unwrittenOperand (instruction slot : Nat)
  | outOfRange (instruction slot : Nat)
  | unwrittenOutput (block : Nat)
deriving DecidableEq, Repr

inductive GraphError where
  | cycle (node : Handle)
  | unknownNode (node : Handle)
  | freeSymbol (node : Handle) (name : String)
  | notSymbol (node : Handle)
  | duplicateInput (node : Handle)
  | shapeMismatch (op : BinaryOp) (lhs rhs : Nat × Nat)
  | concatMismatch (kind : ConcatKind) (expected found : Nat)
  | nonzeroOutOfRange (node : Handle) (index nnz : Nat)
  | invalidPattern (flaw : PatternFlaw)
  | invalidTape (flaw : TapeFlaw)
deriving DecidableEq, Repr

inductive EvaluationError where
  | inputCount (expected found : Nat)
  | outputCount (expected found : Nat)
  | inputLength (input expected found : Nat)
  | seedShape (direction block expected found : Nat)
  | indexOutOfRange (side : Side) (index len : Nat)
  | domain (instruction : Nat) (op : Opcode)
  | notScalar (output : Nat)
deriving DecidableEq, Repr

/-- Preconditions that a caller can break. -/
inductive Violation where
  /-- A size or an index does not fit in a machine word, or a buffer in the address space. -/
  | sizeOverflow
  /-- A range of rows ends behind the last row. -/
  | rangeOutOfBounds
  /-- Two patterns that are combined entry by entry have different shapes. -/
  | shapesDiffer
  /-- A list of values does not match the pattern that it is laid out over. -/
  | lengthMismatch
  /-- An opcode is used with the wrong number of operands. -/
  | wrongArity (op : Opcode)
  /-- A handle that is not a node of the graph. -/
  | foreignHandle (node : Handle)
  /-- A scalar operation on an operand that is not 1x1. -/
  | notScalarOperand
  /-- A slot outside the working array. -/
  | slotOutOfRange (slot : Nat)
  /-- An entry that its block or its node does not have. -/
  | entryOutOfRange
  /-- Directions packed zero at a time, so that the sweeps never end. -/
  | noProgress
deriving DecidableEq, Repr

inductive Error where
  | graph (cause : GraphError)
  | evaluation (cause : EvaluationError)
  | unsupported (op : Opcode) (dialect : Dialect)
  | backendUnavailable (name : String)
  | violation (cause : Violation)
deriving DecidableEq, Repr

def shapeText (shape : Nat × Nat) : String :=
  s!"({shape.1}, {shape.2})"

def PatternFlaw.message : PatternFlaw → String
  | .pointerCount found expected => s!"colind has length {found}, expected {expected}"
  | .pointerEnds => "colind must start at 0 and end at nnz"
  | .pointerDecreases column => s!"colind decreases at column {column}"
  | .rowsUnordered column => s!"rows not strictly increasing in column {column}"
  | .rowOutOfRange column => s!"row index out of range in column {column}"
  | .entryOutside row column nrow ncol => s!"entry ({row}, {column}) outside {nrow}x{ncol}"
  | .entryCount found expected => s!"{found} entries for a pattern with {expected} nonzeros"

def Side.word : Side → String
  | .input => "input"
  | .output => "output"

def TapeFlaw.message : TapeFlaw → String
  | .slotCount side block found expected =>
    side.word ++ s!" {block} has {found} slots for {expected} nonzeros"
  | .inputNotContiguous block => s!"input {block} slots are not contiguous from 0"
  | .extraOperands instruction => s!"instruction {instruction} has extra operands"
  | .unwrittenOperand instruction slot => s!"instruction {instruction} reads unwritten slot {slot}"
  | .outOfRange instruction slot => s!"instruction {instruction} writes slot {slot} out of range"
  | .unwrittenOutput block => s!"output {block} reads an unwritten slot"

def GraphError.message : GraphError → String
  | .cycle node => "cycle detected at node " ++ node.text
  | .unknownNode node => "node " ++ node.text ++ " does not belong to this graph"
  | .freeSymbol node name =>
    "output depends on undeclared symbol `" ++ name ++ "` (" ++ node.text ++ ")"
  | .notSymbol node => "declared input " ++ node.text ++ " is not a symbol"
  | .duplicateInput node => "symbol " ++ node.text ++ " declared as input more than once"
  | .shapeMismatch op lhs rhs =>
    "shape mismatch in " ++ op.ident ++ ": " ++ shapeText lhs ++ " vs " ++ shapeText rhs
  | .concatMismatch kind expected found =>
    kind.mnemonic ++ s!" expects dimension {expected}, part has {found}"
  | .nonzeroOutOfRange node index nnz =>
    s!"nonzero index {index} out of range for " ++ node.text ++ s!" with {nnz} entries"
  | .invalidPattern flaw => "invalid sparsity pattern: " ++ flaw.message
  | .invalidTape flaw => "invalid tape: " ++ flaw.message

def EvaluationError.message : EvaluationError → String
  | .inputCount expected found => s!"expected {expected} input blocks, got {found}"
  | .outputCount expected found => s!"expected {expected} output buffers, got {found}"
  | .inputLength input expected found => s!"input {input} expects {expected} nonzeros, got {found}"
  | .seedShape direction block expected found =>
    s!"seed {direction} block {block} expects {expected} entries, got {found}"
  | .indexOutOfRange side index len => side.word ++ s!" index {index} out of range ({len} declared)"
  | .domain instruction op => s!"domain error in instruction {instruction} (" ++ op.ident ++ ")"
  | .notScalar output => s!"output {output} is not scalar"

/-- The wording of a failure; a broken precondition has none. -/
def Error.message? : Error → Option String
  | .graph cause => some cause.message
  | .evaluation cause => some cause.message
  | .unsupported op dialect => some ("no " ++ dialect.ident ++ " emission rule for " ++ op.ident)
  | .backendUnavailable name => some ("backend `" ++ name ++ "` is not available in this build")
  | .violation _ => none

end Autodiff
