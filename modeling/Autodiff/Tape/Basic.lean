import Autodiff.Pattern.Basic
import Std.Data.HashSet

/-!
# Tapes

A tape is a straight-line program over a working array of slots. Each instruction applies one
opcode to slots and stores the result in a slot. Declared inputs occupy the first slots, block after
block in storage order; outputs are lists of slots.

A tape is valid if every slot is written, by an input or an earlier instruction, before it is
read. `ofParts` accepts exactly the valid ones.
-/

namespace Autodiff

/-- The operand of an instruction that does not read it. -/
def unusedOperand : Nat := 4294967295

/-- One scalar operation on slots. The literal is the value of a constant. -/
structure Instruction where
  op : Opcode
  out : Nat
  fst : Nat
  snd : Nat
  literal : Float
deriving DecidableEq, Repr

namespace Instruction

def operands (instruction : Instruction) : List Nat :=
  match instruction.op with
  | .const => []
  | .unary _ => [instruction.fst]
  | .binary _ => [instruction.fst, instruction.snd]

/-- The operand fields that are not read. -/
def spareOperands (instruction : Instruction) : List Nat :=
  match instruction.op with
  | .const => [instruction.fst, instruction.snd]
  | .unary _ => [instruction.snd]
  | .binary _ => []

end Instruction

/-- A declared input or output: its pattern and the slot of each stored entry. -/
structure Block where
  name : String
  pattern : Pattern
  slots : List Nat
deriving DecidableEq, Repr

/-- A straight-line program over slots. -/
structure Tape where
  instructions : List Instruction
  numSlots : Nat
  inputs : List Block
  outputs : List Block
deriving DecidableEq, Repr

namespace Tape

/-! ## Counts -/

def numInputNonzeros (tape : Tape) : Nat :=
  total (tape.inputs.map fun block => block.slots.length)

def numOutputNonzeros (tape : Tape) : Nat :=
  total (tape.outputs.map fun block => block.slots.length)

def numTemporaries (tape : Tape) : Nat :=
  tape.numSlots - tape.numInputNonzeros

def countOp (tape : Tape) (op : Opcode) : Nat :=
  tape.instructions.countP fun instruction => instruction.op == op

def numConstants (tape : Tape) : Nat :=
  tape.countOp .const

def isSmooth (tape : Tape) : Bool :=
  !tape.instructions.any fun instruction => instruction.op.isNonsmooth

/-! ## Validity -/

def flawed {α : Type} (flaw : TapeFlaw) : Except Error α :=
  .error (.graph (.invalidTape flaw))

/-- Checks that a block has one slot per stored entry. -/
def checkSlotCount (side : Side) (index : Nat) (block : Block) : Except Error Unit :=
  if block.slots.length = block.pattern.nnz then .ok ()
  else flawed (.slotCount side index block.slots.length block.pattern.nnz)

/-- Checks that the slots of an input block continue from `next`, and returns the slot after
them. -/
def checkInputSlots (numSlots index : Nat) : Nat → List Nat → Except Error Nat
  | next, [] => .ok next
  | next, slot :: slots =>
    if slot = next ∧ next < numSlots then checkInputSlots numSlots index (next + 1) slots
    else flawed (.inputNotContiguous index)

/-- Checks the input blocks from the block with number `index` on, whose first slot is `next`,
and returns the number of slots that they fill. -/
def checkInputs (numSlots : Nat) : Nat → Nat → List Block → Except Error Nat
  | _, next, [] => .ok next
  | index, next, block :: blocks => do
    checkSlotCount .input index block
    let next ← checkInputSlots numSlots index next block.slots
    checkInputs numSlots (index + 1) next blocks

/-- Checks the instructions from number `index` on, given the slots written so far, and returns
all slots that are written in the end. -/
def checkInstructions (numSlots : Nat) :
    Nat → Std.HashSet Nat → List Instruction → Except Error (Std.HashSet Nat)
  | _, written, [] => .ok written
  | index, written, instruction :: instructions => do
    if instruction.spareOperands.any (· ≠ unusedOperand) then
      flawed (.extraOperands index)
    match instruction.operands.find? fun slot => !written.contains slot with
    | some slot => flawed (.unwrittenOperand index slot)
    | none => pure ()
    if numSlots ≤ instruction.out then
      flawed (.outOfRange index instruction.out)
    checkInstructions numSlots (index + 1) (written.insert instruction.out) instructions

/-- Checks the output blocks from number `index` on, given the slots that are written. -/
def checkOutputs (written : Std.HashSet Nat) : Nat → List Block → Except Error Unit
  | _, [] => .ok ()
  | index, block :: blocks => do
    checkSlotCount .output index block
    if block.slots.any fun slot => !written.contains slot then
      flawed (.unwrittenOutput index)
    checkOutputs written (index + 1) blocks

/-- Checks that every slot is in range and written before it is read. -/
def validate (tape : Tape) : Except Error Unit := do
  if 1 <<< 63 ≤ tape.numSlots then
    throw (.violation .sizeOverflow)
  let filled ← checkInputs tape.numSlots 0 0 tape.inputs
  let written ← checkInstructions tape.numSlots 0 (Std.HashSet.ofList (List.range filled))
    tape.instructions
  checkOutputs written 0 tape.outputs

def ofParts (instructions : List Instruction) (numSlots : Nat) (inputs outputs : List Block) :
    Except Error Tape := do
  let tape : Tape := ⟨instructions, numSlots, inputs, outputs⟩
  tape.validate
  return tape

/-! ## Blocks -/

def blocks (tape : Tape) : Side → List Block
  | .input => tape.inputs
  | .output => tape.outputs

def block (tape : Tape) (side : Side) (index : Nat) : Except Error Block :=
  match (tape.blocks side)[index]? with
  | some block => .ok block
  | none => .error (.evaluation (.indexOutOfRange side index (tape.blocks side).length))

/-- The pattern of a block that the caller promises to exist. -/
def blockPattern (tape : Tape) (side : Side) (index : Nat) : Except Error Pattern :=
  match (tape.blocks side)[index]? with
  | some block => .ok block.pattern
  | none => .error (.violation .entryOutOfRange)

end Tape

end Autodiff
