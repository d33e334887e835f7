import Autodiff.Lowering.Pruning

/-!
# Slot assignment

Values are mapped to slots. With reuse, the slot of a value is free again after the last
instruction that reads it, and the next result takes the slot that became free last. The values of
outputs keep their slots.
-/

namespace Autodiff

/-- A tape's instructions and output slots, with the length of the working array. -/
structure Allocation where
  instructions : List Instruction
  outputs : List (List Nat)
  numSlots : Nat

def markUses (uses : Array (Option Nat)) (numbered : Instruction × Nat) : Array (Option Nat) :=
  numbered.1.operands.foldl (fun uses value => uses.setIfInBounds value (some numbered.2)) uses

/-- The number of the last instruction that reads each value. -/
def lastUses (numValues : Nat) (instructions : List Instruction) : Array (Option Nat) :=
  instructions.zipIdx.foldl markUses (Array.replicate numValues none)

structure SlotState where
  /-- The slot of each value that has one. -/
  slots : Array Nat
  /-- The free slots, the next one to hand out first. -/
  free : List Nat
  numSlots : Nat
  assigned : Array Instruction := #[]

namespace SlotState

def slot (state : SlotState) (value : Nat) : Nat :=
  state.slots.getD value 0

/-- Frees the slots of the operands that the instruction with number `index` reads last. -/
def release (state : SlotState) (pinned : Array Bool) (uses : Array (Option Nat)) (index : Nat)
    (instruction : Instruction) : List Nat :=
  instruction.operands.eraseDups.foldl (fun free value =>
    if uses.getD value none = some index && !pinned.getD value false then state.slot value :: free
    else free) state.free

def step (pinned : Array Bool) (uses : Array (Option Nat)) (state : SlotState)
    (numbered : Instruction × Nat) : SlotState :=
  let (instruction, index) := numbered
  let (slot, free, numSlots) :=
    match state.release pinned uses index instruction with
    | slot :: free => (slot, free, state.numSlots)
    | [] => (state.numSlots, [], state.numSlots + 1)
  let renamed := instruction.rename state.slot slot
  match state with
  | ⟨slots, _, _, assigned⟩ =>
    ⟨slots.setIfInBounds instruction.out slot, free, numSlots, assigned.push renamed⟩

end SlotState

/-- The state in which every input has its own slot. Inputs that nothing reads give up their
slots, the lowest one first. -/
def SlotState.start (numInputs : Nat) (pinned : Array Bool) (uses : Array (Option Nat)) :
    SlotState where
  slots := Array.range uses.size
  free := (List.range numInputs).filter fun value =>
    uses.getD value none = none && !pinned.getD value false
  numSlots := numInputs

def reuseSlots (numInputs : Nat) (instructions : List Instruction) (outputs : List (List Nat)) :
    Allocation :=
  let numValues := numInputs + instructions.length
  let pinned := outputFlags numValues outputs
  let uses := lastUses numValues instructions
  let final := instructions.zipIdx.foldl (SlotState.step pinned uses)
    (SlotState.start numInputs pinned uses)
  ⟨final.assigned.toList, outputs.map fun block => block.map final.slot, final.numSlots⟩

/-- Maps values to slots; without reuse every value is its own slot. -/
def assignSlots (reuse : Bool) (numInputs : Nat) (instructions : List Instruction)
    (outputs : List (List Nat)) : Allocation :=
  if reuse then reuseSlots numInputs instructions outputs
  else ⟨instructions, outputs, numInputs + instructions.length⟩

end Autodiff
