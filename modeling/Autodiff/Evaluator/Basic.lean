import Autodiff.Session.Jacobian
import Autodiff.Tape.Lanes

/-!
# Evaluators

An evaluator answers the calls of a session and computes in place. Besides the working array it keeps
the tangents, the partials and the adjoints of its last sweeps, and the next call uses the same arrays
again. Nothing is undone when a call fails: a sweep that stops at an instruction leaves behind what the
instructions before it have written.
-/

namespace Autodiff

/-- A session with the arrays of its derivative sweeps. -/
structure Evaluator (α : Type) extends Session α where
  /-- One element per slot and direction. -/
  tangents : Array α := #[]
  /-- The partials of the instructions that have run, the first one first. -/
  partials : Array (α × α) := #[]
  /-- One element per slot and direction. -/
  adjoints : Array α := #[]

/-- Calls on an evaluator; the arrays are kept whether a call succeeds or fails. -/
abbrev EvaluatorM (α : Type) := ExceptT Error (StateM (Evaluator α))

/-- An array brought to a size: cut off, or filled up with an element. -/
def resized {α : Type} (array : Array α) (size : Nat) (element : α) : Array α :=
  array.take size ++ Array.replicate (size - array.size) element

namespace Evaluator

variable {α : Type}

def new [Scalar α] (tape : Tape) (options : EvalOptions) : Evaluator α :=
  { Session.new tape options with }

def perform {β : Type} (evaluator : Evaluator α) (call : EvaluatorM α β) :
    Except Error β × Evaluator α :=
  call.run.run evaluator

def oneShot [Scalar α] {β : Type} (tape : Tape) (call : EvaluatorM α β) : Except Error β :=
  ((new tape {}).perform call).1

/-- A call that concerns the working array only. -/
def onSession {β : Type} (call : SessionM α β) : EvaluatorM α β :=
  ExceptT.mk fun evaluator =>
    let (outcome, session) := evaluator.toSession.perform call
    (outcome, { evaluator with toSession := session })

def load (inputs : List (List α)) : EvaluatorM α Unit := do
  let evaluator ← get
  let tape := evaluator.tape
  if inputs.length ≠ tape.inputs.length then
    throw (.evaluation (.inputCount tape.inputs.length inputs.length))
  set { evaluator with work := resized evaluator.work tape.numSlots evaluator.algebra.zero }
  (tape.inputs.zip inputs).zipIdx.forM fun numbered => onSession (Session.loadBlock numbered)

/-! ## Sweeps -/

def primalStep (evaluator : Evaluator α) (numbered : Instruction × Nat) :
    Except Error (Evaluator α) := do
  let work ← Autodiff.primalStep evaluator.algebra evaluator.work numbered
  return { evaluator with work }

/-- Executes a numbered instruction and stores its result and the tangents of all lanes. -/
def tangentStep (width : Nat) (evaluator : Evaluator α) (numbered : Instruction × Nat) :
    Except Error (Evaluator α) := do
  let step ← numbered.1.step evaluator.algebra numbered.2 evaluator.work
  let weights ← numbered.1.stepPartials evaluator.algebra step
  let tangents ← pushLanes evaluator.algebra width numbered.1 weights evaluator.tangents
  let work ← writeSlot evaluator.work numbered.1.out step.result
  return { evaluator with work, tangents }

/-- Executes a numbered instruction and stores its partials and its result. -/
def recordStep (evaluator : Evaluator α) (numbered : Instruction × Nat) :
    Except Error (Evaluator α) := do
  let step ← numbered.1.step evaluator.algebra numbered.2 evaluator.work
  let weights ← numbered.1.stepPartials evaluator.algebra step
  let work ← writeSlot evaluator.work numbered.1.out step.result
  return { evaluator with work, partials := evaluator.partials.push weights }

/-- Moves the adjoints of all lanes over an instruction whose partials are stored. -/
def adjointStep (width : Nat) (evaluator : Evaluator α) (numbered : Instruction × Nat) :
    Except Error (Evaluator α) := do
  let weights ← readSlot evaluator.partials numbered.2
  let adjoints ← pullLanes evaluator.algebra width numbered.1 weights evaluator.adjoints
  return { evaluator with adjoints }

/-- Takes a step for each instruction. A step that fails ends the sweep, and the evaluator stays as the
steps before it have left it. -/
def sweep (step : Evaluator α → Instruction × Nat → Except Error (Evaluator α))
    (instructions : List (Instruction × Nat)) : EvaluatorM α Unit :=
  instructions.forM fun numbered => do
    let moved ← step (← get) numbered
    set moved

/-! ## Calls -/

def readOutputs : EvaluatorM α (List (List α)) := do
  let evaluator ← get
  (readBlocks evaluator.tape.outputs evaluator.work : Except Error (List (List α)))

def evaluate (inputs : List (List α)) : EvaluatorM α (List (List α)) := do
  load inputs
  sweep primalStep (← get).tape.instructions.zipIdx
  readOutputs

/-- Values and directional derivatives: each sensitivity is the Jacobian times a seed. -/
def forwardAd (inputs : List (List α)) (seeds : List (Seed α)) :
    EvaluatorM α (Derivatives α) := do
  checkSeeds (← get).tape.inputs seeds
  load inputs
  let evaluator ← get
  let tape := evaluator.tape
  let width := seeds.length
  let cleared := resized #[] (tape.numSlots * width) evaluator.algebra.zero
  let tangents ← (scatterLanes width tape.inputs seeds cleared : Except Error (Array α))
  set { evaluator with tangents }
  sweep (tangentStep width) tape.instructions.zipIdx
  let sensitivities ←
    (readLanes width tape.outputs (← get).tangents : Except Error (List (Seed α)))
  return ⟨← readOutputs, sensitivities⟩

/-- Sweeps back over the stored partials, from seeds of the outputs to sensitivities of the inputs. -/
def pullSeeds (seeds : List (Seed α)) : EvaluatorM α (List (Seed α)) := do
  let evaluator ← get
  let tape := evaluator.tape
  let width := seeds.length
  let cleared := resized #[] (tape.numSlots * width) evaluator.algebra.zero
  let adjoints ←
    (scatterAddLanes evaluator.algebra width tape.outputs seeds cleared : Except Error (Array α))
  set { evaluator with adjoints }
  sweep (adjointStep width) tape.instructions.zipIdx.reverse
  (readLanes width tape.inputs (← get).adjoints : Except Error (List (Seed α)))

/-- Values and adjoint derivatives: each sensitivity is the transposed Jacobian times a
seed. -/
def reverseAd (inputs : List (List α)) (seeds : List (Seed α)) :
    EvaluatorM α (Derivatives α) := do
  checkSeeds (← get).tape.outputs seeds
  load inputs
  modify fun evaluator => { evaluator with partials := #[] }
  sweep recordStep (← get).tape.instructions.zipIdx
  let outputs ← readOutputs
  let sensitivities ← pullSeeds seeds
  return ⟨outputs, sensitivities⟩

def gradient (inputs : List (List α)) (oind : Nat) : EvaluatorM α (List (List α)) := do
  (← get).toSession.gradientBy (reverseAd inputs) oind

def jacobianForward (inputs : List (List α)) (iind oind : Nat) :
    EvaluatorM α (List (List α)) := do
  (← get).toSession.jacobianByColumns (forwardAd inputs) iind oind

def jacobianReverse (inputs : List (List α)) (iind oind : Nat) :
    EvaluatorM α (List (List α)) := do
  (← get).toSession.jacobianByRows (reverseAd inputs) iind oind

def jacobian (inputs : List (List α)) (iind oind : Nat) : EvaluatorM α (List (List α)) := do
  (← get).toSession.jacobianBy (jacobianForward inputs iind oind)
    (jacobianReverse inputs iind oind) iind oind

def sparseJacobian (inputs : List (List α)) (iind oind : Nat) :
    EvaluatorM α (Pattern × List α) := do
  (← get).toSession.sparseJacobianBy (forwardAd inputs) (reverseAd inputs) iind oind

end Evaluator

/-! ## Buffers of the caller -/

/-- Calls on an evaluator that write into buffers of the caller; both are kept whether a call succeeds
or fails. -/
abbrev BufferedM (α : Type) := ExceptT Error (StateM (Evaluator α × List (List α)))

namespace Evaluator

variable {α : Type}

/-- The outcome of a call, and the evaluator and the buffers after it. -/
def performInto {β : Type} (evaluator : Evaluator α) (buffers : List (List α))
    (call : BufferedM α β) : Except Error β × Evaluator α × List (List α) :=
  call.run.run (evaluator, buffers)

def besides {β : Type} (call : EvaluatorM α β) : BufferedM α β :=
  ExceptT.mk fun (evaluator, buffers) =>
    let (outcome, after) := evaluator.perform call
    (outcome, after, buffers)

/-- Replaces the contents of one buffer by the elements in the slots of its block. -/
def refill (numbered : Block × Nat) : BufferedM α Unit := do
  let (evaluator, buffers) ← get
  let entries ← (numbered.1.slots.mapM (readSlot evaluator.work) : Except Error (List α))
  set (evaluator, buffers.set numbered.2 entries)

/-- Refills one buffer per output block with the values at the given inputs. -/
def evaluateInto (inputs : List (List α)) : BufferedM α Unit := do
  let (evaluator, buffers) ← get
  let tape := evaluator.tape
  if buffers.length ≠ tape.outputs.length then
    throw (.evaluation (.outputCount tape.outputs.length buffers.length))
  besides (load inputs)
  besides (sweep primalStep tape.instructions.zipIdx)
  tape.outputs.zipIdx.forM refill

end Evaluator

end Autodiff
