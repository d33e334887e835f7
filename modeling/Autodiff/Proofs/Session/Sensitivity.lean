import Autodiff.Proofs.Session.Directions
import Autodiff.Proofs.Tape.LinearSweeps
import Mathlib.LinearAlgebra.Matrix.Notation

/-!
# The matrix of a record

A record fixes the partials of all instructions of a tape, and with them one matrix from the entries of
the inputs to the entries of the outputs. A forward sweep multiplies seeds by this matrix and a
reverse sweep multiplies them by its transpose. Both follow from the pairing identity of the record,
applied to a seed on one side and to a single slot on the other.
-/

namespace Autodiff

open Matrix

variable {α : Type} [CommSemiring α]

namespace Tape

/-- The derivative of every entry of the outputs with respect to every entry of the inputs, given the
partials of all instructions. -/
def sensitivity (tape : Tape) (record : Record α) :
    Matrix (BlockEntry tape.outputs) (BlockEntry tape.inputs) α :=
  .of fun output input => record.pulled (Pi.single output.slot 1) input.slot

variable {tape : Tape} {record : Record α} {seed : Seed α}

theorem pairing_seed {size : Nat} {blocks : List Block} (below : SlotsBelow size blocks)
    (shaped : Session.Shaped blocks seed) (tangents : Nat → α) :
    pairing size tangents (spread (seedSlots blocks seed)) =
      ∑ entry : BlockEntry blocks, tangents entry.slot * seed.vector blocks entry := by
  rw [pairing_spread _ (seedSlots_below below seed)]
  conv_lhs => rw [← Seed.ofVector_vector shaped]
  rw [Seed.seedSlots_ofVector, List.map_map, ← BlockEntry.sum_all]
  rfl

/-- The matrix read by columns: seeding a slot of the inputs. -/
theorem sensitivity_eq_pushed (valid : tape.Valid) (below : record.Below tape.numSlots)
    (output : BlockEntry tape.outputs) (input : BlockEntry tape.inputs) :
    tape.sensitivity record output input = record.pushed (Pi.single input.slot 1) output.slot := by
  have outputInside := output.slot_lt valid.outputsBelow
  have inputInside := input.slot_lt valid.inputsBelow
  calc tape.sensitivity record output input
      = pairing tape.numSlots (record.pulled (Pi.single output.slot 1)) (Pi.single input.slot 1) :=
        (pairing_slot _ inputInside).symm
    _ = pairing tape.numSlots (record.pushed (Pi.single input.slot 1)) (Pi.single output.slot 1) := by
        rw [pairing_comm, record.pairing_pushed below]
    _ = record.pushed (Pi.single input.slot 1) output.slot := pairing_slot _ outputInside

theorem pushed_seed (valid : tape.Valid) (below : record.Below tape.numSlots)
    (shaped : Session.Shaped tape.inputs seed) (output : BlockEntry tape.outputs) :
    record.pushed (spread (seedSlots tape.inputs seed)) output.slot =
      (tape.sensitivity record *ᵥ seed.vector tape.inputs) output := by
  calc record.pushed (spread (seedSlots tape.inputs seed)) output.slot
      = pairing tape.numSlots (record.pushed (spread (seedSlots tape.inputs seed)))
          (Pi.single output.slot 1) :=
        (pairing_slot _ (output.slot_lt valid.outputsBelow)).symm
    _ = pairing tape.numSlots (record.pulled (Pi.single output.slot 1))
          (spread (seedSlots tape.inputs seed)) := by
        rw [record.pairing_pushed below, pairing_comm]
    _ = (tape.sensitivity record *ᵥ seed.vector tape.inputs) output :=
        pairing_seed valid.inputsBelow shaped _

theorem pulled_seed (valid : tape.Valid) (below : record.Below tape.numSlots)
    (shaped : Session.Shaped tape.outputs seed) (input : BlockEntry tape.inputs) :
    record.pulled (spread (seedSlots tape.outputs seed)) input.slot =
      ((tape.sensitivity record)ᵀ *ᵥ seed.vector tape.outputs) input := by
  calc record.pulled (spread (seedSlots tape.outputs seed)) input.slot
      = pairing tape.numSlots (record.pulled (spread (seedSlots tape.outputs seed)))
          (Pi.single input.slot 1) :=
        (pairing_slot _ (input.slot_lt valid.inputsBelow)).symm
    _ = pairing tape.numSlots (record.pushed (Pi.single input.slot 1))
          (spread (seedSlots tape.outputs seed)) := by
        rw [pairing_comm, record.pairing_pushed below]
    _ = ∑ output, record.pushed (Pi.single input.slot 1) output.slot *
          seed.vector tape.outputs output := pairing_seed valid.outputsBelow shaped _
    _ = ((tape.sensitivity record)ᵀ *ᵥ seed.vector tape.outputs) input :=
        Finset.sum_congr rfl fun output _ => by
          rw [← sensitivity_eq_pushed valid below]
          rfl

/-! ## Seeds -/

variable {algebra : Algebra (Except Error) α}

theorem stored_inputs (valid : tape.Valid) (shaped : Session.Shaped tape.inputs seed) :
    stored 0 tape.inputs seed = spread (seedSlots tape.inputs seed) :=
  Arithmetic.stored_zero (shaped.map_fst_seedSlots ▸ valid.nodup_inputs)

theorem scatter_inputs (valid : tape.Valid) (exact : algebra.Exact) (shaped : Session.Shaped tape.inputs seed) :
    scatter algebra tape.numSlots tape.inputs seed =
      .ok (slotArray tape.numSlots (spread (seedSlots tape.inputs seed))) := by
  rw [← stored_inputs valid shaped]
  exact exact.computes.scatter_eq valid.inputsBelow seed

theorem pushedSeed_eq (valid : tape.Valid) (records : tape.Records record)
    (shaped : Session.Shaped tape.inputs seed) :
    (Arithmetic.linear α).pushedSeed tape record seed =
      Seed.ofVector tape.outputs (tape.sensitivity record *ᵥ seed.vector tape.inputs) := by
  have start : stored (Arithmetic.linear α).zero tape.inputs seed =
      spread (seedSlots tape.inputs seed) := stored_inputs valid shaped
  rw [Arithmetic.pushedSeed, start, Arithmetic.pushAll_linear,
    funext (pushed_seed valid (records.below valid) shaped)]

theorem pulledSeed_eq (valid : tape.Valid) (records : tape.Records record)
    (shaped : Session.Shaped tape.outputs seed) :
    (Arithmetic.linear α).pulledSeed tape record seed =
      Seed.ofVector tape.inputs ((tape.sensitivity record)ᵀ *ᵥ seed.vector tape.outputs) := by
  rw [Arithmetic.pulledSeed, Arithmetic.adjointsOf_linear, Arithmetic.pullAll_linear,
    funext (pulled_seed valid (records.below valid) shaped)]

theorem pushSeed_eq (valid : tape.Valid) (exact : algebra.Exact) (records : tape.Records record)
    (shaped : Session.Shaped tape.inputs seed) :
    tape.pushSeed algebra record seed =
      .ok (Seed.ofVector tape.outputs (tape.sensitivity record *ᵥ seed.vector tape.inputs)) := by
  rw [exact.computes.pushSeed_eq valid.bounded records, pushedSeed_eq valid records shaped]

theorem pullSeed_eq (valid : tape.Valid) (exact : algebra.Exact) (records : tape.Records record)
    (shaped : Session.Shaped tape.outputs seed) :
    tape.pullSeed algebra record seed =
      .ok (Seed.ofVector tape.inputs
        ((tape.sensitivity record)ᵀ *ᵥ seed.vector tape.outputs)) := by
  rw [exact.computes.pullSeed_eq valid.bounded records, pulledSeed_eq valid records shaped]

end Tape

end Autodiff
