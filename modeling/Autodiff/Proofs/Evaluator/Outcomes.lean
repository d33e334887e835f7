import Autodiff.Proofs.Evaluator.Buffers
import Autodiff.Proofs.Session.ColorSweeps

/-!
# Outcomes without a state

A call on a valid tape ends in one way, and what it ends with can be computed without any array that is kept
between calls. The tape is run once at the point (`Tape.runAt`), and every direction of a derivative is then
moved over the partials of this run on its own (`Tape.sweepAt`). A call that is put together from sweeps
has the outcome that the same program has over these sweeps, and however the directions are packed, the
sweeps of such a call find what one run finds (`Tape.packed_sweepAt`).
-/

namespace Autodiff

variable {α β γ : Type}

/-! ## One run -/

namespace Tape

def runAt (algebra : Algebra (Except Error) α) (tape : Tape) (point : List (List α)) :
    Except Error (List (List α) × Record α) := do
  Session.checkPoint tape.inputs point
  let state ← tape.recorded algebra
    (Session.place (seedSlots tape.inputs point) (Array.replicate tape.numSlots algebra.zero))
  let values ← readBlocks tape.outputs state.1
  return (values, state.2)

/-- The values at a point and the sensitivities of seeds of given blocks, each moved over the partials. -/
def sweepAt (algebra : Algebra (Except Error) α) (tape : Tape) (point : List (List α))
    (blocks : List Block) (moved : Record α → Seed α → Seed α) (seeds : List (Seed α)) :
    Except Error (Derivatives α) := do
  checkSeeds blocks seeds
  let run ← tape.runAt algebra point
  return ⟨run.1, seeds.map (moved run.2)⟩

/-- The sensitivities of many seeds; without a seed the tape is not run. -/
def sensitivitiesAt (algebra : Algebra (Except Error) α) (tape : Tape) (point : List (List α))
    (moved : Record α → Seed α → Seed α) (seeds : List (Seed α)) : Except Error (List (Seed α)) :=
  if seeds.isEmpty then .ok [] else do
    let run ← tape.runAt algebra point
    return seeds.map (moved run.2)

variable {algebra : Algebra (Except Error) α} {tape : Tape} {point : List (List α)}
  {blocks : List Block} {moved : Record α → Seed α → Seed α} {seeds : List (Seed α)}

theorem Valid.ends_runAt (valid : tape.Valid) {fails : Error → Prop} (guarded : algebra.Guarded fails)
    (rejected : ∀ cause : Error, cause.IsRejection → fails cause) (point : List (List α)) :
    Ends fails (fun _ => True) (tape.runAt algebra point) := by
  refine (Session.Settles.ends_checkPoint rejected tape.inputs point).bind fun _ _ => ?_
  refine (valid.bounded.ends_recorded guarded (by simp)).bind fun state holds => ?_
  exact (ends_readBlocks valid.outputsBelow holds.1).bind fun _ _ => trivial

theorem map_runAt_eq_ok {values : List (List α)} :
    (Prod.fst <$> tape.runAt algebra point) = .ok values ↔
      ∃ record, tape.runAt algebra point = .ok (values, record) := by
  cases tape.runAt algebra point with
  | error cause => simp [Functor.map, Except.map]
  | ok run => simp [Functor.map, Except.map, Prod.ext_iff]

theorem map_runAt_eq_error {cause : Error} :
    (Prod.fst <$> tape.runAt algebra point) = .error cause ↔
      tape.runAt algebra point = .error cause := by
  cases tape.runAt algebra point with
  | error cause => simp [Functor.map, Except.map]
  | ok run => simp [Functor.map, Except.map]

theorem map_runAt {arithmetic : Arithmetic α} (computes : algebra.Computes arithmetic) :
    (Prod.fst <$> tape.runAt algebra point) = (do
      Session.checkPoint tape.inputs point
      let work ← tape.primal algebra
        (Session.place (seedSlots tape.inputs point) (Array.replicate tape.numSlots algebra.zero))
      readBlocks tape.outputs work) := by
  have unrecorded (work : Array α) : tape.primal algebra work = Prod.fst <$> tape.recorded algebra work :=
    computes.primal_eq_recorded tape.instructions 0 work []
  simp only [runAt, unrecorded, map_bind, map_pure, bind_map_left, bind_pure]

theorem sensitivitiesAt_of_run {run : List (List α) × Record α}
    (ran : tape.runAt algebra point = .ok run) :
    tape.sensitivitiesAt algebra point moved seeds = .ok (seeds.map (moved run.2)) := by
  rw [sensitivitiesAt, ran]
  cases seeds <;> rfl

theorem sensitivitiesAt_of_error {cause : Error} (fails : tape.runAt algebra point = .error cause)
    (nonempty : seeds ≠ []) : tape.sensitivitiesAt algebra point moved seeds = .error cause := by
  rw [sensitivitiesAt, fails, if_neg (by simpa using nonempty)]
  rfl

theorem sweepAt_of_shaped (shaped : ∀ seed ∈ seeds, Session.Shaped blocks seed) :
    tape.sweepAt algebra point blocks moved seeds = (do
      let run ← tape.runAt algebra point
      return ⟨run.1, seeds.map (moved run.2)⟩) := by
  rw [sweepAt, Session.checkSeeds_of_shaped shaped]
  rfl

/-- However the seeds are packed into sweeps, all of them are moved over the partials of one run. -/
theorem packed_sweepAt (shaped : ∀ seed ∈ seeds, Session.Shaped blocks seed) (rest : Nat) :
    Session.packed (tape.sweepAt algebra point blocks moved) rest seeds =
      tape.sensitivitiesAt algebra point moved seeds := by
  have inside {piece : List (Seed α)} (isPiece : piece ∈ pieces rest seeds) :
      ∀ seed ∈ piece, Session.Shaped blocks seed :=
    fun seed member => shaped seed (mem_of_mem_pieces isPiece member)
  cases ran : tape.runAt algebra point with
  | error cause =>
      cases seeds with
      | nil =>
          rw [Session.packed, pieces]
          rfl
      | cons seed others =>
          rw [pieces] at inside
          rw [Session.packed, pieces, List.mapM_cons, sweepAt_of_shaped (inside (List.mem_cons_self ..)),
            ran, sensitivitiesAt_of_error ran (by simp)]
          rfl
  | ok run =>
      have swept : (pieces rest seeds).mapM (tape.sweepAt algebra point blocks moved) =
          .ok ((pieces rest seeds).map fun piece => ⟨run.1, piece.map (moved run.2)⟩) := by
        apply mapM_ok
        intro piece isPiece
        rw [sweepAt_of_shaped (inside isPiece), ran]
        rfl
      rw [Session.packed, swept, ok_bind, sensitivities_pieces, sensitivitiesAt_of_run ran]
      rfl

end Tape

/-! ## Calls as computations -/

namespace Evaluator

variable {tape : Tape} {options : EvalOptions} {algebra : Algebra (Except Error) α} {one : α}

namespace Concludes

theorem outcome {call : EvaluatorM α β} {result : Except Error β}
    (concludes : Concludes tape options algebra one call result) {evaluator : Evaluator α}
    (serves : Serves tape options algebra one evaluator) : (evaluator.perform call).1 = result := by
  rcases concludes evaluator serves with ⟨after, -, performed⟩
  rw [performed]

theorem bind {first : EvaluatorM α β} {next : β → EvaluatorM α γ} {computed : Except Error β}
    {results : β → Except Error γ} (head : Concludes tape options algebra one first computed)
    (tail : ∀ value, Concludes tape options algebra one (next value) (results value)) :
    Concludes tape options algebra one (first >>= next) (computed >>= results) := by
  intro evaluator serves
  rcases head evaluator serves with ⟨between, betweenServes, performed⟩
  rw [perform_bind, performed]
  cases computed with
  | error cause => exact ⟨between, betweenServes, rfl⟩
  | ok value => exact tail value between betweenServes

theorem get_bind {next : Evaluator α → EvaluatorM α β} {computed : Except Error β}
    (tail : ∀ evaluator, Serves tape options algebra one evaluator →
      Concludes tape options algebra one (next evaluator) computed) :
    Concludes tape options algebra one (get >>= next) computed :=
  fun evaluator serves => tail evaluator serves evaluator serves

theorem compositional :
    Session.Compositional (EvaluatorM α) (Except Error) (Concludes tape options algebra one) where
  pure _ evaluator serves := ⟨evaluator, serves, rfl⟩
  throw _ evaluator serves := ⟨evaluator, serves, rfl⟩
  lift _ evaluator serves := ⟨evaluator, serves, perform_lift ..⟩
  bind := bind

end Concludes

/-! ### Calls on a valid tape -/

/-- The outcome of a call whose outcome does not depend on the arrays is the one on a new session. -/
theorem Refines.concludes_fresh {call : EvaluatorM α β} {spec : SessionM α β} {fails : Error → Prop}
    {returns : β → Prop} (refines : Refines tape options algebra one call spec)
    (settles : Session.Settles tape options algebra one fails returns spec) :
    Concludes tape options algebra one call
      ((Session.fresh algebra one tape options).perform spec).1 := by
  rcases refines.concludes settles with ⟨outcome, -, concludes⟩
  have serves : Serves tape options algebra one _ :=
    .holding (Vector.replicate tape.numSlots algebra.zero) #[] #[] #[]
  rcases concludes _ serves with ⟨_, -, performed⟩
  rcases refines _ serves with ⟨_, -, specified, -⟩
  have same : outcome = ((Session.fresh algebra one tape options).perform spec).1 :=
    congrArg Prod.fst (performed.symm.trans specified)
  exact same ▸ concludes

theorem inputsFit_fresh (valid : tape.Valid) :
    (Session.fresh algebra one tape options).InputsFit := by
  intro block blockMem slot slotMem
  simpa [Session.fresh] using valid.inputsBelow block blockMem slot slotMem

section Calls

variable {arithmetic : Arithmetic α} (valid : tape.Valid) (computes : algebra.Computes arithmetic)
  (point : List (List α))

include valid computes

theorem concludes_evaluate :
    Concludes tape options algebra one (evaluate point) (Prod.fst <$> tape.runAt algebra point) := by
  have settles : Session.Settles tape options algebra one (fun _ => True) _ (Session.evaluate point) :=
    Session.settles_evaluate valid algebra.guarded_any (fun _ => trivial) point
  have concluded := (refines_evaluate valid point).concludes_fresh settles
  rw [Session.evaluate_outcome _ (inputsFit_fresh valid)] at concluded
  simpa only [Tape.map_runAt computes, Session.loaded, Session.fresh, bind_assoc, pure_bind] using concluded

theorem concludes_forwardAd (seeds : List (Seed α)) :
    Concludes tape options algebra one (forwardAd point seeds)
      (tape.sweepAt algebra point tape.inputs (arithmetic.pushedSeed tape) seeds) := by
  have settles : Session.Settles tape options algebra one (fun _ => True) _
      (Session.forwardAd point seeds) :=
    Session.settles_forwardAd valid algebra.guarded_any (fun _ => trivial) point seeds
  have concluded := (refines_forwardAd valid computes point seeds).concludes_fresh settles
  rw [Session.forwardAd_outcome _ (inputsFit_fresh valid)] at concluded
  simpa only [Session.loaded, Session.fresh, computes.forward_recorded valid.bounded, Tape.sweepAt,
    Tape.runAt, bind_assoc, pure_bind, map_bind, map_pure] using concluded

theorem concludes_reverseAd (seeds : List (Seed α)) :
    Concludes tape options algebra one (reverseAd point seeds)
      (tape.sweepAt algebra point tape.outputs (arithmetic.pulledSeed tape) seeds) := by
  have settles : Session.Settles tape options algebra one (fun _ => True) _
      (Session.reverseAd point seeds) :=
    Session.settles_reverseAd valid algebra.guarded_any (fun _ => trivial) point seeds
  have concluded := (refines_reverseAd valid computes point seeds).concludes_fresh settles
  rw [Session.reverseAd_outcome _ (inputsFit_fresh valid)] at concluded
  simpa only [Session.loaded, Session.fresh, computes.reverse_recorded valid.bounded, Tape.sweepAt,
    Tape.runAt, bind_assoc, pure_bind, map_bind, map_pure] using concluded

variable (iind oind : Nat)

theorem concludes_jacobianForward :
    Concludes tape options algebra one (jacobianForward point iind oind)
      ((Session.fresh algebra one tape options).jacobianByColumns
        (tape.sweepAt algebra point tape.inputs (arithmetic.pushedSeed tape)) iind oind) := by
  apply Concludes.get_bind
  rintro _ ⟨work⟩
  exact Concludes.compositional.jacobianByColumns (.holding tape options algebra one work)
    (concludes_forwardAd valid computes point) iind oind

theorem concludes_jacobianReverse :
    Concludes tape options algebra one (jacobianReverse point iind oind)
      ((Session.fresh algebra one tape options).jacobianByRows
        (tape.sweepAt algebra point tape.outputs (arithmetic.pulledSeed tape)) iind oind) := by
  apply Concludes.get_bind
  rintro _ ⟨work⟩
  exact Concludes.compositional.jacobianByRows (.holding tape options algebra one work)
    (concludes_reverseAd valid computes point) iind oind

theorem concludes_jacobian :
    Concludes tape options algebra one (jacobian point iind oind)
      ((Session.fresh algebra one tape options).jacobianBy
        ((Session.fresh algebra one tape options).jacobianByColumns
          (tape.sweepAt algebra point tape.inputs (arithmetic.pushedSeed tape)) iind oind)
        ((Session.fresh algebra one tape options).jacobianByRows
          (tape.sweepAt algebra point tape.outputs (arithmetic.pulledSeed tape)) iind oind)
        iind oind) := by
  apply Concludes.get_bind
  rintro _ ⟨work⟩
  exact Concludes.compositional.jacobianBy (.holding tape options algebra one work)
    (concludes_jacobianForward valid computes point iind oind)
    (concludes_jacobianReverse valid computes point iind oind) iind oind

theorem concludes_sparseJacobian :
    Concludes tape options algebra one (sparseJacobian point iind oind)
      ((Session.fresh algebra one tape options).sparseJacobianBy
        (tape.sweepAt algebra point tape.inputs (arithmetic.pushedSeed tape))
        (tape.sweepAt algebra point tape.outputs (arithmetic.pulledSeed tape)) iind oind) := by
  apply Concludes.get_bind
  rintro _ ⟨work⟩
  exact Concludes.compositional.sparseJacobianBy (.holding tape options algebra one work)
    (concludes_forwardAd valid computes point) (concludes_reverseAd valid computes point) iind oind

end Calls

end Evaluator

end Autodiff
