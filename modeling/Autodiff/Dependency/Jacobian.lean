import Autodiff.Dependency.Mask

/-!
# Jacobian patterns

Which stored entries of an output block may depend on which stored entries of an input block.
Seeds are processed in batches of the mask's width: the tape runs over masks, and the masks at
the other end are read as pairs. Forward propagation seeds the inputs, adjoint propagation the
outputs, and both give the same pattern.
-/

namespace Autodiff

/-- The side that a propagation is seeded from. -/
inductive Direction where
  /-- Seeds inputs and reads outputs. -/
  | forward
  /-- Seeds outputs and reads inputs. -/
  | adjoint
deriving DecidableEq, Repr

def Direction.ident : Direction → String
  | .forward => "Forward"
  | .adjoint => "Adjoint"

def numBatches (seeds : Nat) : Nat :=
  (seeds + maskWidth - 1) / maskWidth

/-- The slots of one batch, each with the mask of its seed. -/
def batchSeeds (slots : List Nat) (batch : Nat) : List (Nat × UInt64) :=
  ((slots.drop (batch * maskWidth)).take maskWidth).zipIdx.map fun (slot, number) =>
    (slot, seedMask number)

def maskWeights (instruction : Instruction) : UInt64 × UInt64 :=
  if instruction.op = .const then (0, 0) else (~~~0, ~~~0)

namespace Tape

def maskRecord (tape : Tape) : Record UInt64 :=
  tape.instructions.reverse.map fun instruction => (instruction, maskWeights instruction)

def sweepMasks (tape : Tape) (direction : Direction) (work : Array UInt64) :
    Except Error (Array UInt64) :=
  match direction with
  | .forward => tape.primal masks work
  | .adjoint => tape.maskRecord.adjoint masks work

/-- An array of empty masks with the seeds of one batch in their slots; a slot that is seeded
several times gets all of the masks. -/
def seedBatch (tape : Tape) (slots : List Nat) (batch : Nat) : Except Error (Array UInt64) :=
  (batchSeeds slots batch).foldlM
    (fun work (slot, mask) => Instruction.accumulate masks work slot mask)
    (Array.replicate tape.numSlots 0)

/-- The pairs `(seed, entry)` that the masks of the read entries stand for. -/
def batchPairs (batch : Nat) (found : List UInt64) : List (Nat × Nat) :=
  found.zipIdx.flatMap fun (mask, entry) =>
    (maskSeeds mask).map fun number => (batch * maskWidth + number, entry)

/-- The pairs `(seed, entry)` that one batch finds between the seeded and the read slots. -/
def propagateBatch (tape : Tape) (direction : Direction) (seeded read : List Nat) (batch : Nat) :
    Except Error (List (Nat × Nat)) := do
  let work ← tape.seedBatch seeded batch
  let work ← tape.sweepMasks direction work
  let found ← read.mapM (readSlot work)
  return batchPairs batch found

/-- The pattern of an output block with respect to an input block, from batches that run in a
given order. -/
def patternFromBatches (tape : Tape) (input output : Block) (direction : Direction)
    (order : List Nat) : Except Error Pattern := do
  let pairs ← match direction with
    | .forward => do
      let found ← order.mapM (tape.propagateBatch .forward input.slots output.slots)
      pure (found.flatten.map fun (seed, entry) => (entry, seed))
    | .adjoint => do
      let found ← order.mapM (tape.propagateBatch .adjoint output.slots input.slots)
      pure found.flatten
  return Pattern.ofColumns output.slots.length
    ((buckets input.slots.length Prod.snd pairs).map fun column => column.map Prod.fst)

def jacobianPatternIn (tape : Tape) (iind oind : Nat) (direction : Direction) :
    Except Error Pattern := do
  let input ← tape.block .input iind
  let output ← tape.block .output oind
  let seeds := match direction with
    | .forward => input.slots.length
    | .adjoint => output.slots.length
  tape.patternFromBatches input output direction (List.range (numBatches seeds))

/-- The direction that needs fewer batches, forward on ties. -/
def preferredDirection (tape : Tape) (iind oind : Nat) : Except Error Direction := do
  let input ← tape.block .input iind
  let output ← tape.block .output oind
  if numBatches input.slots.length ≤ numBatches output.slots.length then return .forward
  else return .adjoint

def jacobianPattern (tape : Tape) (iind oind : Nat) : Except Error Pattern := do
  tape.jacobianPatternIn iind oind (← tape.preferredDirection iind oind)

def dependsOn (tape : Tape) (iind oind : Nat) : Except Error Bool := do
  return !(← tape.jacobianPattern iind oind).isEmpty

end Tape

inductive Backend where
  | sequential | parallel
deriving DecidableEq, Repr

namespace Backend

def ofKind : BackendKind → Except Error Backend
  | .sequential => .ok .sequential
  | .parallel => .ok .parallel
  | .gpu => .error (.backendUnavailable "gpu-wgpu")

def name : Backend → String
  | .sequential => "sequential"
  | .parallel => "parallel"

def text (backend : Backend) : String :=
  "SparsityBackend(\"" ++ backend.name ++ "\")"

end Backend

/-- The Jacobian pattern by a chosen strategy. The batches of the parallel one are
independent of each other, so their order does not matter. -/
def Tape.jacobianPatternBy (tape : Tape) (kind : BackendKind) (iind oind : Nat)
    (direction : Direction) : Except Error Pattern := do
  let _ ← Backend.ofKind kind
  tape.jacobianPatternIn iind oind direction

end Autodiff
