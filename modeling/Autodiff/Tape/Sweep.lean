import Autodiff.Tape.Algebra
import Autodiff.Tape.Basic

/-!
# Sweeps

The primal sweep computes values. The tangent sweep carries directional derivatives along with
them, one array of tangents per direction. The recording sweep keeps the partials of every
instruction, and the adjoint sweep then runs over this record from the last instruction to the
first: it takes the adjoint of the result, resets it, and adds its share to the adjoint of each
operand.

A sweep fails at the first instruction whose result the algebra does not accept.
-/

namespace Autodiff

variable {m : Type → Type} [Monad m] [MonadExceptOf Error m] {α : Type}

def readSlot (array : Array α) (slot : Nat) : m α :=
  match array[slot]? with
  | some element => pure element
  | none => throw (.violation (.slotOutOfRange slot))

def writeSlot (array : Array α) (slot : Nat) (element : α) : m (Array α) :=
  if slot < array.size then pure (array.setIfInBounds slot element)
  else throw (.violation (.slotOutOfRange slot))

structure Step (α : Type) where
  fst : α
  snd : α
  result : α

namespace Instruction

/-- The operands of an instruction, zero for those that it does not read. -/
def load (algebra : Algebra m α) (instruction : Instruction) (work : Array α) : m (α × α) :=
  match instruction.op with
  | .const => pure (algebra.zero, algebra.zero)
  | .unary _ => do
    let first ← readSlot work instruction.fst
    pure (first, algebra.zero)
  | .binary _ => do
    let first ← readSlot work instruction.fst
    let second ← readSlot work instruction.snd
    pure (first, second)

def step (algebra : Algebra m α) (instruction : Instruction) (index : Nat) (work : Array α) :
    m (Step α) := do
  let (first, second) ← instruction.load algebra work
  match instruction.op with
  | .const => return ⟨first, second, ← algebra.constant instruction.literal⟩
  | op =>
    let result ← algebra.eval op first second
    if algebra.admissible op first second result then return ⟨first, second, result⟩
    else throw (.evaluation (.domain index op))

def stepPartials (algebra : Algebra m α) (instruction : Instruction) (step : Step α) :
    m (α × α) :=
  match instruction.op with
  | .const => pure (algebra.zero, algebra.zero)
  | op => algebra.partials op step.fst step.snd step.result

/-- The share of one operand in a tangent. -/
def tangentShare (algebra : Algebra m α) (weight tangent : α) : m α := do
  if ← algebra.isZero tangent then pure algebra.zero else algebra.mul weight tangent

def tangent (algebra : Algebra m α) (instruction : Instruction) (weights : α × α)
    (tangents : Array α) : m α :=
  match instruction.op with
  | .const => pure algebra.zero
  | .unary _ => do
    let first ← readSlot tangents instruction.fst
    tangentShare algebra weights.1 first
  | .binary _ => do
    let first ← readSlot tangents instruction.fst
    let total ← tangentShare algebra weights.1 first
    let second ← readSlot tangents instruction.snd
    if ← algebra.isZero second then pure total
    else
      let share ← algebra.mul weights.2 second
      algebra.add total share

def accumulate (algebra : Algebra m α) (adjoints : Array α) (slot : Nat) (share : α) :
    m (Array α) := do
  let old ← readSlot adjoints slot
  let sum ← algebra.add old share
  writeSlot adjoints slot sum

/-- Moves the adjoint of the result to the operands in one direction. -/
def pullBack (algebra : Algebra m α) (instruction : Instruction) (weights : α × α)
    (adjoints : Array α) : m (Array α) := do
  let adjoint ← readSlot adjoints instruction.out
  let adjoints ← writeSlot adjoints instruction.out algebra.zero
  match instruction.op with
  | .const => pure adjoints
  | .unary _ =>
    if ← algebra.isZero adjoint then pure adjoints
    else
      let share ← algebra.mul weights.1 adjoint
      accumulate algebra adjoints instruction.fst share
  | .binary _ =>
    if ← algebra.isZero adjoint then pure adjoints
    else
      let share ← algebra.mul weights.1 adjoint
      let adjoints ← accumulate algebra adjoints instruction.fst share
      let share ← algebra.mul weights.2 adjoint
      accumulate algebra adjoints instruction.snd share

end Instruction

/-- The executed instructions with their partials, the last one first. -/
abbrev Record (α : Type) := List (Instruction × (α × α))

/-! ## Steps of the sweeps -/

def primalStep (algebra : Algebra m α) (work : Array α) (numbered : Instruction × Nat) :
    m (Array α) := do
  let step ← numbered.1.step algebra numbered.2 work
  writeSlot work numbered.1.out step.result

def recordStep (algebra : Algebra m α) (state : Array α × Record α)
    (numbered : Instruction × Nat) : m (Array α × Record α) := do
  let step ← numbered.1.step algebra numbered.2 state.1
  let weights ← numbered.1.stepPartials algebra step
  let work ← writeSlot state.1 numbered.1.out step.result
  pure (work, (numbered.1, weights) :: state.2)

def pushForward (algebra : Algebra m α) (instruction : Instruction) (weights : α × α)
    (tangents : Array α) : m (Array α) := do
  let tangent ← instruction.tangent algebra weights tangents
  writeSlot tangents instruction.out tangent

def tangentStep (algebra : Algebra m α) (state : Array α × List (Array α))
    (numbered : Instruction × Nat) : m (Array α × List (Array α)) := do
  let step ← numbered.1.step algebra numbered.2 state.1
  let weights ← numbered.1.stepPartials algebra step
  let directions ← state.2.mapM (pushForward algebra numbered.1 weights)
  let work ← writeSlot state.1 numbered.1.out step.result
  pure (work, directions)

/-- Moves the adjoints of every direction over a recorded instruction. -/
def adjointStep (algebra : Algebra m α) (directions : List (Array α))
    (recorded : Instruction × (α × α)) : m (List (Array α)) :=
  directions.mapM (recorded.1.pullBack algebra recorded.2)

/-! ## Sweeps -/

namespace Tape

def primal (algebra : Algebra m α) (tape : Tape) (work : Array α) : m (Array α) :=
  tape.instructions.zipIdx.foldlM (primalStep algebra) work

def recorded (algebra : Algebra m α) (tape : Tape) (work : Array α) :
    m (Array α × Record α) :=
  tape.instructions.zipIdx.foldlM (recordStep algebra) (work, [])

def tangents (algebra : Algebra m α) (tape : Tape) (work : Array α)
    (directions : List (Array α)) : m (Array α × List (Array α)) :=
  tape.instructions.zipIdx.foldlM (tangentStep algebra) (work, directions)

end Tape

/-- Runs over a record and moves the adjoints of one direction from the outputs to the inputs. -/
def Record.adjoint (algebra : Algebra m α) (record : Record α) (adjoints : Array α) :
    m (Array α) :=
  record.foldlM (fun adjoints recorded => recorded.1.pullBack algebra recorded.2 adjoints) adjoints

/-- Runs over a record and moves the adjoints of every direction from the outputs to the
inputs. -/
def Record.adjoints (algebra : Algebra m α) (record : Record α) (directions : List (Array α)) :
    m (List (Array α)) :=
  record.foldlM (adjointStep algebra) directions

end Autodiff
