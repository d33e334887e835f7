import Autodiff.Proofs.Session.Answers
import Autodiff.Proofs.Session.LinkedTapes
import Autodiff.Proofs.Session.Sensitivity
import Autodiff.Proofs.Tape.Safety

/-!
# Runs of a valid tape

On a valid tape a run depends on the point only: the values of the outputs and the partials of all
instructions are the same whatever the working array held. `RunsTo` records both. The derivative calls of
every session then push or pull each seed over these partials (`Computes.forwardAd`, `Computes.reverseAd`),
and over a semiring they answer with products of one matrix (`RunsTo.forwardAd`, `RunsTo.reverseAd`).
-/

namespace Autodiff

open Matrix

/-! ## Runs that cannot fail -/

/-- Every operation has a result, and it is accepted. -/
structure Algebra.Total {α : Type} (algebra : Algebra (Except Error) α) : Prop where
  constant : ∀ literal, ∃ value, algebra.constant literal = .ok value
  eval : ∀ op first second, op ≠ .const →
    ∃ result, algebra.eval op first second = .ok result ∧ algebra.admissible op first second result

theorem Algebra.Total.ends_step {α : Type} {algebra : Algebra (Except Error) α} (total : algebra.Total) {size : Nat}
    {work : Array α} {instruction : Instruction} (below : instruction.Below size) (index : Nat)
    (sized : work.size = size) :
    Ends (fun _ => False) (fun _ => True) (instruction.step algebra index work) := by
  refine (Algebra.Guarded.ends_load below sized).bind fun operands _ => ?_
  dsimp only
  split
  next =>
    rcases total.constant instruction.literal with ⟨value, known⟩
    rw [known]
    trivial
  next notConst =>
    rcases total.eval instruction.op operands.1 operands.2 fun isConst => notConst isConst with
      ⟨result, known, accepted⟩
    rw [known, ok_bind, if_pos accepted]
    trivial

namespace Tape

variable {α : Type} {algebra : Algebra (Except Error) α} {tape : Tape}
  {point values : List (List α)} {record : Record α}

/-- What the working array held before the inputs were loaded does not show in the outputs. -/
theorem Valid.exists_primal (valid : tape.Valid) (shaped : Session.Shaped tape.inputs point)
    {work : Vector α tape.numSlots} {final : Array α}
    (ran : tape.primal algebra (Session.place (seedSlots tape.inputs point) work.toArray) = .ok final)
    (read : (readBlocks tape.outputs final : Except Error _) = .ok values)
    (other : Vector α tape.numSlots) :
    ∃ final : Array α, final.size = tape.numSlots ∧
      tape.primal algebra (Session.place (seedSlots tape.inputs point) other.toArray) = .ok final ∧
        (readBlocks tape.outputs final : Except Error _) = .ok values := by
  rcases valid.linked with ⟨before, after, linked⟩
  -- The other array holds the same inputs, and a valid tape reads nothing else.
  have same := linked.sameInputs_place work other shaped
  have evaluated := (linked.primal_eq algebra same).symm.trans (bind_eq_ok.mpr ⟨final, ran, read⟩)
  rcases bind_eq_ok.mp evaluated with ⟨otherFinal, otherRan, otherRead⟩
  have sized := valid.bounded.ends_primal algebra.guarded_any same.secondSized
  rw [otherRan] at sized
  exact ⟨otherFinal, sized, otherRan, otherRead⟩

/-- At a point, whatever the working array holds, the outputs have given values and the instructions given
partials. -/
structure RunsTo (tape : Tape) (algebra : Algebra (Except Error) α) (point values : List (List α))
    (record : Record α) : Prop where
  shaped : Session.Shaped tape.inputs point
  records : tape.Records record
  ran : ∀ work : Vector α tape.numSlots, ∃ final : Array α, final.size = tape.numSlots ∧
    tape.primal algebra (Session.place (seedSlots tape.inputs point) work.toArray) = .ok final ∧
    tape.recorded algebra (Session.place (seedSlots tape.inputs point) work.toArray) =
      .ok (final, record) ∧
    (readBlocks tape.outputs final : Except Error _) = .ok values

theorem exists_evaluate (valid : tape.Valid) (total : algebra.Total)
    (shaped : Session.Shaped tape.inputs point) (options : EvalOptions) (one : α)
    (work : Vector α tape.numSlots) :
    ∃ values, ((Session.holding tape options algebra one work).perform
      (Session.evaluate point)).1 = .ok values := by
  have ends : Ends (fun _ => False) (fun after => after.size = tape.numSlots)
      (tape.primal algebra (Session.place (seedSlots tape.inputs point) work.toArray)) := by
    refine Ends.foldlM (fun work sized numbered member => ?_) (by simp)
    have below := valid.instructionsBelow numbered.1 (List.fst_mem_of_mem_zipIdx member)
    exact (total.ends_step below numbered.2 sized).bind fun step _ =>
      ends_writeSlot below.out sized step.result
  rcases ends.exists_ok with ⟨final, sized, ran⟩
  rcases (ends_readBlocks valid.outputsBelow sized).exists_ok with ⟨values, -, read⟩
  exact ⟨values, (Session.evaluate_eq_ok valid.inputsBelow).mpr ⟨shaped, final, ran, read⟩⟩

theorem RunsTo.evaluate {options : EvalOptions} {one : α}
    (runs : tape.RunsTo algebra point values record) (valid : tape.Valid) :
    Session.Answers tape options algebra one (Session.evaluate point) values := by
  refine .evaluate runs.shaped valid.inputsBelow fun work => ?_
  rcases runs.ran work with ⟨final, sized, ran, _, read⟩
  exact ⟨final, sized, ran, read⟩

end Tape

section Evaluating

variable {α : Type} {meaning : Meaning α} {algebra : Algebra (Except Error) α} {tape : Tape}
  {point : List (List α)}

/-- Over elements with a meaning a valid tape evaluates every point of the right shape: the outputs hold
what the instructions compute from the inputs, whatever the other slots hold at the start. -/
theorem Algebra.Evaluates.evaluate_stored (evaluates : algebra.Evaluates meaning) (valid : tape.Valid)
    (shaped : Session.Shaped tape.inputs point) (rest : α) (options : EvalOptions) (one : α) :
    Session.Answers tape options algebra one (Session.evaluate point)
      (Seed.ofVector tape.outputs fun output => executeAll meaning tape.instructions
        (stored rest tape.inputs point) output.slot) := by
  have ran : tape.primal algebra (Session.place (seedSlots tape.inputs point)
      (Vector.replicate tape.numSlots rest).toArray) =
      .ok (slotArray tape.numSlots (executeAll meaning tape.instructions
        (stored rest tape.inputs point))) := by
    rw [Vector.toArray_replicate, Session.place_replicate valid.inputsBelow]
    exact evaluates.primal _ valid.instructionsBelow 0
  refine .evaluate shaped valid.inputsBelow (valid.exists_primal shaped ran ?_)
  rw [readBlocks_slotArray valid.outputsBelow, Seed.ofVector_slots]
  rfl

theorem Algebra.Evaluates.evaluate (evaluates : algebra.Evaluates meaning) (valid : tape.Valid)
    (shaped : Session.Shaped tape.inputs point) (options : EvalOptions) (one : α) :
    Session.Answers tape options algebra one (Session.evaluate point)
      (Seed.ofVector tape.outputs fun output => executeAll meaning tape.instructions
        (stored algebra.zero tape.inputs point) output.slot) :=
  evaluates.evaluate_stored valid shaped algebra.zero options one

end Evaluating

/-! ## Derivatives at a point -/

namespace Algebra.Computes

variable {α : Type} {arithmetic : Arithmetic α} {algebra : Algebra (Except Error) α} {tape : Tape}
  {point values : List (List α)} {record : Record α} {options : EvalOptions} {one : α}
  {seeds : List (Seed α)}

/-- One successful evaluation determines all runs at its point. -/
theorem exists_runsTo (computes : algebra.Computes arithmetic) (valid : tape.Valid)
    {work : Vector α tape.numSlots}
    (evaluated : ((Session.holding tape options algebra one work).perform
      (Session.evaluate point)).1 = .ok values) :
    ∃ record, tape.RunsTo algebra point values record := by
  rcases valid.linked with ⟨before, after, linked⟩
  rcases (Session.evaluate_eq_ok valid.inputsBelow).mp evaluated with ⟨shaped, final, ran, read⟩
  rcases computes.exists_recorded ran [] with ⟨record, recorded⟩
  refine ⟨record, shaped, Tape.records_of_recorded recorded, fun other => ?_⟩
  rcases valid.exists_primal shaped ran read other with ⟨otherFinal, sized, otherRan, otherRead⟩
  rcases computes.exists_recorded otherRan [] with ⟨otherRecord, otherRecorded⟩
  have sameRecord := linked.recorded_eq algebra (linked.sameInputs_place work other shaped)
  have recordedRun : tape.recorded algebra _ = .ok (final, record) := recorded
  have otherRun : tape.recorded algebra _ = .ok (otherFinal, otherRecord) := otherRecorded
  rw [recordedRun, otherRun] at sameRecord
  cases Except.ok.inj sameRecord
  exact ⟨otherFinal, sized, otherRan, otherRecorded, otherRead⟩

theorem forwardAd (computes : algebra.Computes arithmetic)
    (runs : tape.RunsTo algebra point values record) (valid : tape.Valid)
    (shaped : ∀ seed ∈ seeds, Session.Shaped tape.inputs seed) :
    Session.Answers tape options algebra one (Session.forwardAd point seeds)
      ⟨values, seeds.map (arithmetic.pushedSeed tape record)⟩ := by
  refine .forwardAd runs.shaped valid.inputsBelow shaped fun work => ?_
  rcases runs.ran work with ⟨final, sized, _, recorded, read⟩
  exact ⟨final, sized, computes.forward_eq valid.bounded recorded read seeds⟩

theorem reverseAd (computes : algebra.Computes arithmetic)
    (runs : tape.RunsTo algebra point values record) (valid : tape.Valid)
    (shaped : ∀ seed ∈ seeds, Session.Shaped tape.outputs seed) :
    Session.Answers tape options algebra one (Session.reverseAd point seeds)
      ⟨values, seeds.map (arithmetic.pulledSeed tape record)⟩ := by
  refine .reverseAd runs.shaped valid.inputsBelow shaped fun work => ?_
  rcases runs.ran work with ⟨final, sized, _, recorded, read⟩
  exact ⟨final, sized, computes.reverse_eq valid.bounded recorded runs.records read seeds⟩

end Algebra.Computes

namespace Tape

variable {α : Type} [CommSemiring α] {algebra : Algebra (Except Error) α} {tape : Tape}
  {point values : List (List α)} {record : Record α} {options : EvalOptions} {one : α}
  {seeds : List (Seed α)}

theorem exists_runsTo (valid : tape.Valid) (exact : algebra.Exact) {work : Vector α tape.numSlots}
    (evaluated : ((Session.holding tape options algebra one work).perform
      (Session.evaluate point)).1 = .ok values) :
    ∃ record, tape.RunsTo algebra point values record :=
  exact.computes.exists_runsTo valid evaluated

theorem RunsTo.forwardAd (runs : tape.RunsTo algebra point values record) (valid : tape.Valid)
    (exact : algebra.Exact) (shaped : ∀ seed ∈ seeds, Session.Shaped tape.inputs seed) :
    Session.Answers tape options algebra one (Session.forwardAd point seeds)
      ⟨values, seeds.map fun seed =>
        Seed.ofVector tape.outputs (tape.sensitivity record *ᵥ seed.vector tape.inputs)⟩ := by
  have products := List.map_congr_left fun seed member =>
    pushedSeed_eq valid runs.records (shaped seed member)
  exact products ▸ exact.computes.forwardAd runs valid shaped

theorem RunsTo.reverseAd (runs : tape.RunsTo algebra point values record) (valid : tape.Valid)
    (exact : algebra.Exact) (shaped : ∀ seed ∈ seeds, Session.Shaped tape.outputs seed) :
    Session.Answers tape options algebra one (Session.reverseAd point seeds)
      ⟨values, seeds.map fun seed =>
        Seed.ofVector tape.inputs ((tape.sensitivity record)ᵀ *ᵥ seed.vector tape.outputs)⟩ := by
  have products := List.map_congr_left fun seed member =>
    pulledSeed_eq valid runs.records (shaped seed member)
  exact products ▸ exact.computes.reverseAd runs valid shaped

end Tape

end Autodiff
