import Autodiff.Proofs.Session.Entries
import Autodiff.Proofs.Tape.Execution
import Autodiff.Proofs.Tape.PureSweeps
import Autodiff.Proofs.Tape.Validity

/-!
# Directions of a derivative sweep

Given the partials of all instructions, each direction of a sweep has its own sensitivities: they depend on
the seed of this direction and on nothing else. Forward sweeps push a seed of the inputs to the outputs, and
reverse sweeps pull a seed of the outputs back to the inputs.
-/

namespace Autodiff

variable {α : Type}

namespace Tape

def Records (tape : Tape) (record : Record α) : Prop :=
  record.map Prod.fst = tape.instructions.reverse

theorem records_recordAll [Zero α] (rules : DerivativeRules α) (meaning : Meaning α) (tape : Tape)
    (values : Nat → α) : tape.Records (recordAll rules meaning tape.instructions values []) :=
  (map_fst_recordAll ..).trans (List.append_nil _)

theorem map_fst_recorded {algebra : Algebra (Except Error) α} {instructions : List Instruction}
    {start : Nat} {state final : Array α × Record α}
    (recorded : (instructions.zipIdx start).foldlM (recordStep algebra) state = .ok final) :
    final.2.map Prod.fst = instructions.reverse ++ state.2.map Prod.fst := by
  induction instructions generalizing start state with
  | nil =>
      cases recorded
      rfl
  | cons instruction instructions ih =>
      rw [List.zipIdx_cons, List.foldlM_cons, bind_eq_ok] at recorded
      rcases recorded with ⟨between, stepped, recorded⟩
      rcases bind_eq_ok.mp stepped with ⟨_, _, stepped⟩
      rcases bind_eq_ok.mp stepped with ⟨weights, _, stepped⟩
      rcases bind_eq_ok.mp stepped with ⟨work, _, isBetween⟩
      cases isBetween
      rw [ih recorded, List.reverse_cons, List.append_assoc]
      rfl

theorem records_of_recorded {algebra : Algebra (Except Error) α} {tape : Tape} {work final : Array α}
    {record : Record α} (recorded : tape.recorded algebra work = .ok (final, record)) :
    tape.Records record :=
  (map_fst_recorded recorded).trans (List.append_nil _)

theorem Records.inside {tape : Tape} {record : Record α} (records : tape.Records record)
    (bounded : tape.Bounded) : record.Below tape.numSlots := by
  intro recorded member
  refine bounded.instructions recorded.1 (List.mem_reverse.mp ?_)
  rw [← records]
  exact List.mem_map_of_mem member

theorem Records.below {tape : Tape} {record : Record α} (records : tape.Records record)
    (valid : tape.Valid) : record.Below tape.numSlots :=
  records.inside valid.bounded

def pushSeed (algebra : Algebra (Except Error) α) (tape : Tape) (record : Record α)
    (seed : Seed α) : Except Error (Seed α) := do
  let tangents ← scatter algebra tape.numSlots tape.inputs seed
  let tangents ← record.reverse.foldlM
    (fun tangents recorded => pushForward algebra recorded.1 recorded.2 tangents) tangents
  readBlocks tape.outputs tangents

def pullSeed (algebra : Algebra (Except Error) α) (tape : Tape) (record : Record α)
    (seed : Seed α) : Except Error (Seed α) := do
  let adjoints ← scatterAdd algebra tape.numSlots tape.outputs seed
  let adjoints ← record.adjoint algebra adjoints
  readBlocks tape.inputs adjoints

end Tape

namespace Arithmetic

variable (arithmetic : Arithmetic α) (tape : Tape) (record : Record α) (seed : Seed α)

/-- What a seed of the inputs becomes at the outputs. -/
def pushedSeed : Seed α :=
  Seed.ofVector tape.outputs fun output =>
    arithmetic.pushAll record (stored arithmetic.zero tape.inputs seed) output.slot

/-- What a seed of the outputs becomes at the inputs. -/
def pulledSeed : Seed α :=
  Seed.ofVector tape.inputs fun input =>
    arithmetic.pullAll record (arithmetic.adjointsOf tape.outputs seed) input.slot

end Arithmetic

namespace Algebra.Computes

variable {arithmetic : Arithmetic α} {algebra : Algebra (Except Error) α} {tape : Tape}
  {record : Record α}

theorem readOutputs_pushed (bounded : tape.Bounded) (seed : Seed α) :
    (readBlocks tape.outputs (slotArray tape.numSlots (arithmetic.pushAll record
      (stored arithmetic.zero tape.inputs seed))) : Except Error _) =
      .ok (arithmetic.pushedSeed tape record seed) := by
  rw [readBlocks_slotArray bounded.outputs, Seed.ofVector_slots]
  rfl

theorem readInputs_pulled (bounded : tape.Bounded) (seed : Seed α) :
    (readBlocks tape.inputs (slotArray tape.numSlots (arithmetic.pullAll record
      (arithmetic.adjointsOf tape.outputs seed))) : Except Error _) =
      .ok (arithmetic.pulledSeed tape record seed) := by
  rw [readBlocks_slotArray bounded.inputs, Seed.ofVector_slots]
  rfl

/-! ## Given partials -/

theorem pushSeed_eq (computes : algebra.Computes arithmetic) (bounded : tape.Bounded)
    (records : tape.Records record) (seed : Seed α) :
    tape.pushSeed algebra record seed = .ok (arithmetic.pushedSeed tape record seed) := by
  rw [Tape.pushSeed, computes.scatter_eq bounded.inputs, ok_bind,
    computes.push_eq (records.inside bounded), ok_bind, readOutputs_pushed bounded]

theorem pullSeed_eq (computes : algebra.Computes arithmetic) (bounded : tape.Bounded)
    (records : tape.Records record) (seed : Seed α) :
    tape.pullSeed algebra record seed = .ok (arithmetic.pulledSeed tape record seed) := by
  rw [Tape.pullSeed, computes.scatterAdd_eq bounded.outputs, ok_bind,
    computes.adjoint_eq (records.inside bounded), ok_bind, readInputs_pulled bounded]

/-! ## Sweeps that compute the partials -/

variable {work final : Array α} {values : List (List α)}

variable (computes : algebra.Computes arithmetic) (bounded : tape.Bounded)
include computes bounded

theorem forward_recorded (work : Array α) (seeds : List (Seed α)) :
    tape.forward algebra work seeds = (do
      let state ← tape.recorded algebra work
      let values ← readBlocks tape.outputs state.1
      return (state.1, ⟨values, seeds.map (arithmetic.pushedSeed tape state.2)⟩)) := by
  have scattered : seeds.mapM (scatter algebra tape.numSlots tape.inputs) =
      .ok ((seeds.map (stored arithmetic.zero tape.inputs)).map (slotArray tape.numSlots)) := by
    rw [List.map_map]
    exact mapM_ok fun seed _ => computes.scatter_eq bounded.inputs seed
  have swept : tape.tangents algebra work
      ((seeds.map (stored arithmetic.zero tape.inputs)).map (slotArray tape.numSlots)) = (do
        let state ← tape.recorded algebra work
        return (state.1, ((seeds.map (stored arithmetic.zero tape.inputs)).map
          (arithmetic.pushAll state.2)).map (slotArray tape.numSlots))) := by
    have unmoved : (seeds.map (stored arithmetic.zero tape.inputs)).map (arithmetic.pushAll []) =
        seeds.map (stored arithmetic.zero tape.inputs) := List.map_id _
    have swept := computes.tangents_eq bounded.instructions 0 work []
      (seeds.map (stored arithmetic.zero tape.inputs))
    rw [unmoved] at swept
    exact swept
  have sensitivities (record : Record α) : ((((seeds.map (stored arithmetic.zero tape.inputs)).map
      (arithmetic.pushAll record)).map (slotArray tape.numSlots)).mapM (readBlocks tape.outputs) :
        Except Error _) = .ok (seeds.map (arithmetic.pushedSeed tape record)) := by
    simp only [List.map_map, List.mapM_map]
    exact mapM_ok fun seed _ => readOutputs_pushed bounded seed
  simp only [Tape.forward, scattered, swept, ok_bind, bind_assoc, pure_bind, sensitivities]

theorem forward_eq (recorded : tape.recorded algebra work = .ok (final, record))
    (read : (readBlocks tape.outputs final : Except Error _) = .ok values) (seeds : List (Seed α)) :
    tape.forward algebra work seeds =
      .ok (final, ⟨values, seeds.map (arithmetic.pushedSeed tape record)⟩) := by
  simp only [computes.forward_recorded bounded, recorded, read, ok_bind]
  rfl

theorem reverse_eq (recorded : tape.recorded algebra work = .ok (final, record)) (records : tape.Records record)
    (read : (readBlocks tape.outputs final : Except Error _) = .ok values) (seeds : List (Seed α)) :
    tape.reverse algebra work seeds =
      .ok (final, ⟨values, seeds.map (arithmetic.pulledSeed tape record)⟩) := by
  have scattered : seeds.mapM (scatterAdd algebra tape.numSlots tape.outputs) =
      .ok ((seeds.map (arithmetic.adjointsOf tape.outputs)).map (slotArray tape.numSlots)) := by
    rw [List.map_map]
    exact mapM_ok fun seed _ => computes.scatterAdd_eq bounded.outputs seed
  have sensitivities : ((((seeds.map (arithmetic.adjointsOf tape.outputs)).map
      (arithmetic.pullAll record)).map (slotArray tape.numSlots)).mapM (readBlocks tape.inputs) :
        Except Error _) = .ok (seeds.map (arithmetic.pulledSeed tape record)) := by
    simp only [List.map_map, List.mapM_map]
    exact mapM_ok fun seed _ => readInputs_pulled bounded seed
  simp only [Tape.reverse, recorded, read, scattered, computes.adjoints_eq (records.inside bounded),
    sensitivities, ok_bind]
  rfl

theorem reverse_recorded (work : Array α) (seeds : List (Seed α)) :
    tape.reverse algebra work seeds = (do
      let state ← tape.recorded algebra work
      let values ← readBlocks tape.outputs state.1
      return (state.1, ⟨values, seeds.map (arithmetic.pulledSeed tape state.2)⟩)) := by
  rcases recorded : tape.recorded algebra work with cause | ⟨final, record⟩
  · simp only [Tape.reverse, recorded, error_bind]
  rcases read : (readBlocks tape.outputs final : Except Error _) with cause | values
  · simp only [Tape.reverse, recorded, read, ok_bind, error_bind]
  · simp only [computes.reverse_eq bounded recorded (Tape.records_of_recorded recorded) read, read,
      ok_bind]
    rfl

end Algebra.Computes

end Autodiff
