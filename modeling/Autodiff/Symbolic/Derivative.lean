import Autodiff.Dependency.Jacobian
import Autodiff.Lowering.Build
import Autodiff.Symbolic.Algebra
import Autodiff.Tape.Derivative

/-!
# Symbolic derivatives

The sweeps of a tape, run over expressions: the results are ordinary nodes of a graph, so they can
be lowered and differentiated again.
-/

namespace Autodiff.Tape

/-- Stores an expression of the graph in a slot. -/
def placeExpression (work : Array Handle) (entry : Nat × Handle) : GraphM (Array Handle) := do
  GraphM.check entry.2
  writeSlot work entry.1 entry.2

def placeBlock (work : Array Handle) (numbered : (Block × List Handle) × Nat) :
    GraphM (Array Handle) := do
  let ((block, values), index) := numbered
  if values.length ≠ block.slots.length then
    throw (.evaluation (.inputLength index block.slots.length values.length))
  (block.slots.zip values).foldlM placeExpression work

/-- The working array with the given expressions in the input slots. -/
def symbolicWork (tape : Tape) (inputs : List (List Handle)) : GraphM (Array Handle) := do
  if inputs.length ≠ tape.inputs.length then
    throw (.evaluation (.inputCount tape.inputs.length inputs.length))
  (tape.inputs.zip inputs).zipIdx.foldlM placeBlock (Array.replicate tape.numSlots .zero)

def checkSeedHandles (seeds : List (Seed Handle)) : GraphM Unit :=
  seeds.forM fun seed => seed.forM fun entries => entries.forM GraphM.check

/-- The tape that computes one expression, with the default options. -/
def lowered (inputs : List Handle) (output : Handle) : GraphM Tape := do
  (← get).build {} inputs [output]

variable {m : Type → Type} [Monad m] [MonadExceptOf Error m] [MonadLiftT (Except Error) m]
  [MonadLiftT GraphM m] [MonadFold m]

def evalSymbolic (tape : Tape) (inputs : List (List Handle)) : m (List (List Handle)) := do
  let work ← tape.symbolicWork inputs
  let work ← tape.primal expressions work
  readBlocks tape.outputs work

def forwardSymbolic (tape : Tape) (inputs : List (List Handle)) (seeds : List (Seed Handle)) :
    m (Derivatives Handle) := do
  checkSeeds tape.inputs seeds
  let work ← tape.symbolicWork inputs
  checkSeedHandles seeds
  return (← tape.forward expressions work seeds).2

def reverseSymbolic (tape : Tape) (inputs : List (List Handle)) (seeds : List (Seed Handle)) :
    m (Derivatives Handle) := do
  checkSeeds tape.outputs seeds
  checkSeedHandles seeds
  let work ← tape.symbolicWork inputs
  return (← tape.reverse expressions work seeds).2

/-- The entries of a numbered input matrix, checked against its block. -/
def blockEntries (numbered : (Handle × Block) × Nat) : GraphM (List Handle) := do
  let ((input, block), index) := numbered
  GraphM.check input
  let nnz := (← GraphM.pattern input).nnz
  if nnz ≠ block.slots.length then
    throw (.evaluation (.inputLength index block.slots.length nnz))
  GraphM.nonzeros input

/-- The entries of the input matrices, checked against the input blocks. -/
def inputEntries (tape : Tape) (inputs : List Handle) : GraphM (List (List Handle)) := do
  if inputs.length ≠ tape.inputs.length then
    throw (.evaluation (.inputCount tape.inputs.length inputs.length))
  (inputs.zip tape.inputs).zipIdx.mapM blockEntries

/-- The seeds of all entries of one block, one direction per entry. -/
def entrySeeds (blocks : List Block) (index count : Nat) : List (Seed Handle) :=
  (List.range count).map fun entry => unitSeed .zero .one blocks index [entry]

/-- The stored entries of a Jacobian: by columns if the input block is not the larger one, otherwise by
rows. -/
def jacobianEntries (tape : Tape) (entries : List (List Handle)) (iind oind numInputs numOutputs : Nat)
    (pattern : Pattern) : m (List Handle) := do
  if numInputs ≤ numOutputs then
    let result ← tape.forwardSymbolic entries (entrySeeds tape.inputs iind numInputs)
    pattern.positions.mapM fun position =>
      (directionEntry result.sensitivities position.2 oind position.1 : Except Error Handle)
  else
    let result ← tape.reverseSymbolic entries (entrySeeds tape.outputs oind numOutputs)
    pattern.positions.mapM fun position =>
      (directionEntry result.sensitivities position.1 iind position.2 : Except Error Handle)

/-- The Jacobian of an output block with respect to an input block as one matrix expression. The
propagated pattern decides which entries are stored. -/
def jacobianExpr (tape : Tape) (inputs : List Handle) (iind oind : Nat) : m Handle := do
  let input ← tape.block .input iind
  let output ← tape.block .output oind
  let entries ← tape.inputEntries inputs
  let pattern ← tape.jacobianPattern iind oind
  let values ← tape.jacobianEntries entries iind oind input.slots.length output.slots.length pattern
  GraphM.assemble pattern values

/-- The gradient of an output entry with respect to an input block, as one column. -/
def gradientColumn (tape : Tape) (inputs : List Handle) (iind oind : Nat) : m Handle := do
  let entries ← tape.inputEntries inputs
  let result ← tape.reverseSymbolic entries [unitSeed .zero .one tape.outputs oind [0]]
  let gradient ← Seed.block (result.sensitivities.headD []) iind
  GraphM.assemble (← Pattern.column gradient.length) gradient

/-- The Hessian of an output with one stored entry with respect to an input block: the
gradient is lowered to a second tape over the same inputs, and its Jacobian is taken. -/
def hessianExpr (tape : Tape) (inputs : List Handle) (iind oind : Nat) : m Handle := do
  let _ ← tape.block .input iind
  let output ← tape.block .output oind
  if output.slots.length ≠ 1 then
    throw (.evaluation (.notScalar oind))
  let column ← tape.gradientColumn inputs iind oind
  let gradientTape ← lowered inputs column
  gradientTape.jacobianExpr inputs iind 0

end Autodiff.Tape
