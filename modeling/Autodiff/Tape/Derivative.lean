import Autodiff.Tape.Sweep

/-!
# Derivatives of tapes

Seeds give the directions of a derivative sweep: one vector of entries per block. Forward
sweeps take seeds of the input blocks and return, per direction, the Jacobian times the seed.
Reverse sweeps take seeds of the output blocks and return the transposed Jacobian times the seed.
-/

namespace Autodiff

/-- A vector of entries per block. -/
abbrev Seed (α : Type) := List (List α)

/-- The outputs of a sweep with derivatives, and the sensitivities of each direction. -/
structure Derivatives (α : Type) where
  outputs : List (List α)
  sensitivities : List (Seed α)
deriving DecidableEq, Repr

section Seeds

variable {α : Type}

/-- Checks that a seed has one entry per slot of each block. -/
def checkSeed (blocks : List Block) (direction : Nat) (seed : Seed α) : Except Error Unit := do
  if seed.length ≠ blocks.length then
    throw (.evaluation (.inputCount blocks.length seed.length))
  (blocks.zip seed).zipIdx.forM fun ((block, entries), index) =>
    if entries.length = block.slots.length then pure ()
    else throw (.evaluation (.seedShape direction index block.slots.length entries.length))

def checkSeeds (blocks : List Block) (seeds : List (Seed α)) : Except Error Unit :=
  seeds.zipIdx.forM fun (seed, direction) => checkSeed blocks direction seed

/-- The slots of all blocks, each with its entry of the seed. -/
def seedSlots (blocks : List Block) (seed : Seed α) : List (Nat × α) :=
  (blocks.zip seed).flatMap fun (block, entries) => block.slots.zip entries

/-- The seed that is one at the entries `chosen` of one block and zero elsewhere. -/
def unitSeed (zero one : α) (blocks : List Block) (index : Nat) (chosen : List Nat) : Seed α :=
  blocks.zipIdx.map fun (block, number) =>
    (List.range block.slots.length).map fun entry =>
      if number = index ∧ entry ∈ chosen then one else zero

def Seed.block (seed : Seed α) (block : Nat) : Except Error (List α) :=
  match seed[block]? with
  | some entries => .ok entries
  | none => .error (.violation .entryOutOfRange)

def Seed.entry (seed : Seed α) (block index : Nat) : Except Error α :=
  match (seed[block]?).bind (·[index]?) with
  | some entry => .ok entry
  | none => .error (.violation .entryOutOfRange)

def directionEntry (found : List (Seed α)) (direction block index : Nat) : Except Error α :=
  match found[direction]? with
  | some seed => seed.entry block index
  | none => .error (.violation .entryOutOfRange)

end Seeds

variable {m : Type → Type} [Monad m] [MonadExceptOf Error m] {α : Type}

def readBlocks (blocks : List Block) (array : Array α) : m (List (List α)) :=
  blocks.mapM fun block => block.slots.mapM (readSlot array)

/-- An array of zeros with the entries of a seed in their slots. -/
def scatter (algebra : Algebra m α) (numSlots : Nat) (blocks : List Block) (seed : Seed α) :
    m (Array α) :=
  (seedSlots blocks seed).foldlM (fun array (slot, entry) => writeSlot array slot entry)
    (Array.replicate numSlots algebra.zero)

/-- An array of zeros with the entries of a seed added to their slots; a slot that stands in
several blocks gets the sum. -/
def scatterAdd (algebra : Algebra m α) (numSlots : Nat) (blocks : List Block) (seed : Seed α) :
    m (Array α) :=
  (seedSlots blocks seed).foldlM
    (fun array (slot, entry) => Instruction.accumulate algebra array slot entry)
    (Array.replicate numSlots algebra.zero)

namespace Tape

/-- Runs the tape on loaded inputs with one tangent direction per seed; also returns the
working array. -/
def forward (algebra : Algebra m α) (tape : Tape) (work : Array α) (seeds : List (Seed α)) :
    m (Array α × Derivatives α) := do
  let directions ← seeds.mapM (scatter algebra tape.numSlots tape.inputs)
  let (work, directions) ← tape.tangents algebra work directions
  let outputs ← readBlocks tape.outputs work
  let sensitivities ← directions.mapM (readBlocks tape.outputs)
  return (work, ⟨outputs, sensitivities⟩)

/-- Runs the tape on loaded inputs and then back with one adjoint direction per seed; also
returns the working array. -/
def reverse (algebra : Algebra m α) (tape : Tape) (work : Array α) (seeds : List (Seed α)) :
    m (Array α × Derivatives α) := do
  let (work, record) ← tape.recorded algebra work
  let outputs ← readBlocks tape.outputs work
  let directions ← seeds.mapM (scatterAdd algebra tape.numSlots tape.outputs)
  let directions ← record.adjoints algebra directions
  let sensitivities ← directions.mapM (readBlocks tape.inputs)
  return (work, ⟨outputs, sensitivities⟩)

end Tape

end Autodiff
