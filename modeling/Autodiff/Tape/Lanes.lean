import Autodiff.Tape.Derivative

/-!
# Lanes

One array can hold the elements of many directions. The directions of a slot stand next to each
other, so that direction `d` of slot `s` is found at `s * width + d`. The places of one direction
are its lane, and within its lane a direction is swept like an array of slots.
-/

namespace Autodiff

/-- The place of a slot in the lane of a direction. -/
def lane (width direction slot : Nat) : Nat :=
  slot * width + direction

def Instruction.inLane (width direction : Nat) (instruction : Instruction) : Instruction :=
  { instruction with
    out := lane width direction instruction.out
    fst := lane width direction instruction.fst
    snd := lane width direction instruction.snd }

def Block.inLane (width direction : Nat) (block : Block) : Block :=
  { block with slots := block.slots.map (lane width direction) }

variable {m : Type → Type} [Monad m] [MonadExceptOf Error m] {α : Type}

def scatterLanes (width : Nat) (blocks : List Block) (seeds : List (Seed α)) (array : Array α) :
    m (Array α) :=
  seeds.zipIdx.foldlM (fun array (seed, direction) =>
    (seedSlots (blocks.map (Block.inLane width direction)) seed).foldlM
      (fun array (slot, entry) => writeSlot array slot entry) array) array

/-- Adds the entries of each seed in its lane; a slot that stands in several blocks gets the sum. -/
def scatterAddLanes (algebra : Algebra m α) (width : Nat) (blocks : List Block)
    (seeds : List (Seed α)) (array : Array α) : m (Array α) :=
  seeds.zipIdx.foldlM (fun array (seed, direction) =>
    (seedSlots (blocks.map (Block.inLane width direction)) seed).foldlM
      (fun array (slot, entry) => Instruction.accumulate algebra array slot entry) array) array

def readLanes (width : Nat) (blocks : List Block) (array : Array α) : m (List (Seed α)) :=
  (List.range width).mapM fun direction =>
    readBlocks (blocks.map (Block.inLane width direction)) array

/-- Carries the tangents of all lanes over an instruction. They are computed before the first of them is
stored. -/
def pushLanes (algebra : Algebra m α) (width : Nat) (instruction : Instruction) (weights : α × α)
    (tangents : Array α) : m (Array α) := do
  let moved ← (List.range width).mapM fun direction =>
    (instruction.inLane width direction).tangent algebra weights tangents
  moved.zipIdx.foldlM (fun tangents (tangent, direction) =>
    writeSlot tangents (lane width direction instruction.out) tangent) tangents

/-- Moves the adjoints of all lanes over an instruction, one lane after the other. -/
def pullLanes (algebra : Algebra m α) (width : Nat) (instruction : Instruction) (weights : α × α)
    (adjoints : Array α) : m (Array α) :=
  (List.range width).foldlM (fun adjoints direction =>
    (instruction.inLane width direction).pullBack algebra weights adjoints) adjoints

end Autodiff
