import Autodiff.Document.Value
import Autodiff.Tape.Basic

/-!
# Tapes as documents

Writing a tape and reading it back. A number that is not finite has no JSON form and is
written as null, which reading refuses. Reading checks the form of the whole document first,
then every pattern, then the tape.
-/

namespace Autodiff

open Document

/-- Why a document is not a tape: its form is wrong, or its contents are. -/
inductive DocumentError where
  | malformed
  | invalid (cause : Error)
deriving DecidableEq, Repr

/-- A pattern in compressed form whose contents are not checked yet. -/
structure RawPattern where
  nrow : Nat
  ncol : Nat
  pointers : List Nat
  rows : List Nat

structure RawBlock where
  name : String
  pattern : RawPattern
  slots : List Nat

def Document.ofNats (values : List Nat) : Document :=
  .array (values.map fun value : Nat => .integer value)

/-- A number, or null if it is not finite. -/
def Document.ofFloat (value : Float) : Document :=
  if value.isFinite then .real value else .null

def Pattern.toDocument (pattern : Pattern) : Document :=
  .object [("nrow", .integer pattern.nrow), ("ncol", .integer pattern.ncol),
    ("colind", ofNats pattern.columnPointers), ("row", ofNats pattern.rows)]

def Block.toDocument (block : Block) : Document :=
  .object [("name", .string block.name), ("sparsity", block.pattern.toDocument),
    ("slots", ofNats block.slots)]

def Instruction.toDocument (instruction : Instruction) : Document :=
  .object [("op", .string instruction.op.ident), ("out", .integer instruction.out),
    ("args", ofNats [instruction.fst, instruction.snd]),
    ("literal", ofFloat instruction.literal)]

def Tape.toDocument (tape : Tape) : Document :=
  .object [("instructions", .array (tape.instructions.map Instruction.toDocument)),
    ("num_slots", .integer tape.numSlots),
    ("inputs", .array (tape.inputs.map Block.toDocument)),
    ("outputs", .array (tape.outputs.map Block.toDocument))]

def RawPattern.ofDocument? (document : Document) : Option RawPattern := do
  let [nrow?, ncol?, pointers?, rows?] ← document.record? ["nrow", "ncol", "colind", "row"]
    | none
  return {
    nrow := ← required? word? nrow?
    ncol := ← required? word? ncol?
    pointers := ← required? (list? word?) pointers?
    rows := ← required? (list? word?) rows? }

def RawBlock.ofDocument? (document : Document) : Option RawBlock := do
  let [name?, pattern?, slots?] ← document.record? ["name", "sparsity", "slots"]
    | none
  return {
    name := ← required? string? name?
    pattern := ← required? RawPattern.ofDocument? pattern?
    slots := ← required? (list? halfWord?) slots? }

def Instruction.ofDocument? (document : Document) : Option Instruction := do
  let [op?, out?, operands?, literal?] ← document.record? ["op", "out", "args", "literal"]
    | none
  let op ← required? (variant? Opcode.ident Opcode.all) op?
  let out ← required? halfWord? out?
  let [first, second] ← required? (list? halfWord?) operands?
    | none
  return ⟨op, out, first, second, ← required? float? literal?⟩

def RawBlock.check (block : RawBlock) : Except Error Block := do
  let pattern ← Pattern.ofCompressed block.pattern.nrow block.pattern.ncol block.pattern.pointers
    block.pattern.rows
  return ⟨block.name, pattern, block.slots⟩

structure RawTape where
  instructions : List Instruction
  numSlots : Nat
  inputs : List RawBlock
  outputs : List RawBlock

def RawTape.ofDocument? (document : Document) : Option RawTape := do
  let [instructions?, numSlots?, inputs?, outputs?] ←
      document.record? ["instructions", "num_slots", "inputs", "outputs"]
    | none
  return {
    instructions := ← required? (list? Instruction.ofDocument?) instructions?
    numSlots := ← required? word? numSlots?
    inputs := ← required? (list? RawBlock.ofDocument?) inputs?
    outputs := ← required? (list? RawBlock.ofDocument?) outputs? }

/-- The tape with the given parts, if its patterns and then the tape are valid. -/
def RawTape.check (raw : RawTape) : Except Error Tape := do
  let inputs ← raw.inputs.mapM RawBlock.check
  let outputs ← raw.outputs.mapM RawBlock.check
  Tape.ofParts raw.instructions raw.numSlots inputs outputs

def Tape.ofDocument (document : Document) : Except DocumentError Tape :=
  match RawTape.ofDocument? document with
  | none => .error .malformed
  | some raw => raw.check.mapError .invalid

def Tape.roundTrips (tape : Tape) : Except DocumentError Bool := do
  return decide ((← Tape.ofDocument tape.toDocument) = tape)

end Autodiff
