import Autodiff.Proofs.Evaluator.Sweeps
import Autodiff.Proofs.Session.Answers
import Autodiff.Proofs.Session.Composition

/-!
# Evaluators refine sessions

Whatever earlier calls have left in the arrays of an evaluator, a call on it has the outcome of the same call
on a session. A sweep that stops early leaves an evaluator behind whose working array still has the right
size, so the next call can start from it.
-/

namespace Autodiff

namespace Evaluator

variable {α β γ : Type}

/-! ## Evaluators over a tape -/

variable (tape : Tape) (options : EvalOptions) (algebra : Algebra (Except Error) α) (one : α)

/-- Earlier calls may have left anything in the arrays; only the size of the working array is known. -/
inductive Serves : Evaluator α → Prop where
  | holding (work : Vector α tape.numSlots) (tangents : Array α) (partials : Array (α × α))
      (adjoints : Array α) :
    Serves ⟨Session.holding tape options algebra one work, tangents, partials, adjoints⟩

/-- The call has the outcome of the session call, whatever the arrays hold. If it succeeds, it leaves the same
working array behind. -/
def Refines (call : EvaluatorM α β) (spec : SessionM α β) : Prop :=
  ∀ evaluator, Serves tape options algebra one evaluator →
    ∃ after, Serves tape options algebra one after ∧
      evaluator.perform call = ((evaluator.toSession.perform spec).1, after) ∧
      ∀ value, (evaluator.toSession.perform spec).1 = .ok value →
        after.toSession = (evaluator.toSession.perform spec).2

variable {tape options algebra one}

namespace Refines

theorem lift (computed : Except Error β) :
    Refines tape options algebra one (liftM computed) (liftM computed) := by
  intro evaluator serves
  refine ⟨evaluator, serves, ?_, fun _ _ => ?_⟩
  · rw [perform_lift, Session.perform_lift]
  · rw [Session.perform_lift]

theorem bind {first : EvaluatorM α β} {firstSpec : SessionM α β} {next : β → EvaluatorM α γ}
    {nextSpec : β → SessionM α γ} (head : Refines tape options algebra one first firstSpec)
    (tail : ∀ value, Refines tape options algebra one (next value) (nextSpec value)) :
    Refines tape options algebra one (first >>= next) (firstSpec >>= nextSpec) := by
  intro evaluator serves
  rcases head evaluator serves with ⟨between, betweenServes, performed, same⟩
  rw [perform_bind, performed, Session.perform_bind]
  rcases specified : evaluator.toSession.perform firstSpec with ⟨_ | value, session⟩
  · exact ⟨between, betweenServes, rfl, nofun⟩
  · rw [specified] at same
    obtain rfl := same value rfl
    exact tail value between betweenServes

theorem get_bind {next : Evaluator α → EvaluatorM α β} {spec : Session α → SessionM α β}
    (tail : ∀ evaluator, Serves tape options algebra one evaluator →
      Refines tape options algebra one (next evaluator) (spec evaluator.toSession)) :
    Refines tape options algebra one (get >>= next) (get >>= spec) :=
  fun evaluator serves => tail evaluator serves evaluator serves

theorem compositional :
    Session.Compositional (EvaluatorM α) (SessionM α) (Refines tape options algebra one) where
  pure _ evaluator serves := ⟨evaluator, serves, rfl, fun _ _ => rfl⟩
  throw _ evaluator serves := ⟨evaluator, serves, rfl, fun _ _ => rfl⟩
  lift := lift
  bind := bind

end Refines

/-! ## Calls -/

theorem perform_forM_onSession (evaluator : Evaluator α) (elements : List β)
    (call : β → SessionM α Unit) :
    evaluator.perform (elements.forM fun element => onSession (call element)) =
      evaluator.perform (onSession (elements.forM call)) := by
  induction elements generalizing evaluator with
  | nil => rfl
  | cons element elements ih =>
      have first : ((element :: elements).forM fun element => onSession (call element)) =
          (onSession (call element) >>= fun _ => elements.forM fun element => onSession (call element)) :=
        rfl
      have second : (element :: elements).forM call = (call element >>= fun _ => elements.forM call) :=
        rfl
      rw [first, second, ← perform_onSession_bind]
      simp only [perform_bind, ih]

theorem perform_load (work : Vector α tape.numSlots) (tangents : Array α) (partials : Array (α × α))
    (adjoints : Array α) (inputs : List (List α)) :
    let evaluator : Evaluator α :=
      ⟨Session.holding tape options algebra one work, tangents, partials, adjoints⟩
    evaluator.perform (load inputs) = evaluator.perform (onSession (Session.load inputs)) := by
  have sized : resized work.toArray tape.numSlots algebra.zero = work.toArray :=
    resized_eq work.size_toArray algebra.zero
  simp only [load, Session.load, perform_bind, perform_get, perform_onSession, Session.perform_bind,
    Session.perform_get, Session.holding]
  by_cases counted : inputs.length = tape.inputs.length
  · simp only [counted, ne_eq, not_true_eq_false, if_false, perform_bind, perform_set, sized,
      perform_forM_onSession, perform_onSession]
  · simp only [counted, ne_eq, not_false_eq_true, if_true, perform_bind]
    rfl

theorem refines_load (valid : tape.Valid) (inputs : List (List α)) :
    Refines tape options algebra one (load inputs) (Session.load inputs) := by
  rintro _ ⟨work, tangents, partials, adjoints⟩
  have fits : (Session.holding tape options algebra one work).InputsFit := by
    intro block blockMem slot slotMem
    simpa [Session.holding] using valid.inputsBelow block blockMem slot slotMem
  rcases Session.perform_load _ fits inputs with ⟨loaded, sized, performed, -⟩
  have sized : loaded.size = tape.numSlots := sized.trans work.size_toArray
  refine ⟨⟨Session.holding tape options algebra one ⟨loaded, sized⟩, tangents, partials, adjoints⟩,
    .holding .., ?_, fun _ _ => ?_⟩
  · rw [perform_load, perform_onSession]
    simp only [performed]
    rfl
  · simp only [performed]
    rfl

/-- The call ends as a computation of a working array and a result does, and a failure leaves the arrays in
some state. -/
def Yields (tape : Tape) (options : EvalOptions) (algebra : Algebra (Except Error) α) (one : α)
    (evaluator : Evaluator α) (call : EvaluatorM α β) : Except Error (Array α × β) → Prop
  | .ok (work, result) => ∃ after, Serves tape options algebra one after ∧
      evaluator.perform call = (.ok result, after) ∧ after.toSession = { evaluator.toSession with work }
  | .error cause => ∃ after, Serves tape options algebra one after ∧
      evaluator.perform call = (.error cause, after)

theorem Refines.onWork {call : EvaluatorM α β} {run : Session α → Except Error (Array α × β)}
    (yields : ∀ evaluator, Serves tape options algebra one evaluator →
      Yields tape options algebra one evaluator call (run evaluator.toSession)) :
    Refines tape options algebra one call (Session.onWork run) := by
  intro evaluator serves
  have yielded := yields evaluator serves
  rw [Session.perform_onWork]
  rcases ran : run evaluator.toSession with cause | ⟨work, result⟩ <;> rw [ran] at yielded
  · rcases yielded with ⟨after, afterServes, performed⟩
    exact ⟨after, afterServes, performed, nofun⟩
  · rcases yielded with ⟨after, afterServes, performed, same⟩
    exact ⟨after, afterServes, performed, fun _ _ => same⟩

theorem perform_readOutputs (evaluator : Evaluator α) :
    evaluator.perform readOutputs = (readBlocks evaluator.tape.outputs evaluator.work, evaluator) := by
  simp only [readOutputs, perform_bind, perform_get, perform_lift]

namespace Serves

variable {evaluator after : Evaluator α}

theorem sized (serves : Serves tape options algebra one evaluator) :
    evaluator.work.size = evaluator.tape.numSlots := by
  cases serves with
  | holding work => exact work.size_toArray

theorem keep (serves : Serves tape options algebra one evaluator) {work : Array α}
    (sized : work.size = evaluator.tape.numSlots)
    (same : after.toSession = { evaluator.toSession with work }) :
    Serves tape options algebra one after := by
  rcases after with ⟨session, tangents, partials, adjoints⟩
  cases serves
  cases same
  exact .holding ⟨work, sized⟩ ..

theorem tape_eq (serves : Serves tape options algebra one evaluator) : evaluator.tape = tape := by
  cases serves
  rfl

theorem algebra_eq (serves : Serves tape options algebra one evaluator) :
    evaluator.algebra = algebra := by
  cases serves
  rfl

end Serves

theorem refines_evaluate (valid : tape.Valid) (inputs : List (List α)) :
    Refines tape options algebra one (evaluate inputs) (Session.evaluate inputs) := by
  refine (refines_load valid inputs).bind fun _ => .onWork fun evaluator serves => ?_
  have followed := follows_primal serves.sized
  rcases ran : evaluator.tape.primal evaluator.algebra evaluator.work with cause | final <;>
    rw [ran] at followed
  · rcases followed with ⟨_, reached, performed, sized, rfl⟩
    refine ⟨{ evaluator with work := reached }, serves.keep sized rfl, ?_⟩
    simp only [perform_bind, perform_get, performed]
  · rcases followed with ⟨_, performed, sized, rfl⟩
    rw [ok_bind]
    rcases read : (readBlocks evaluator.tape.outputs final : Except Error _) with cause | values
    · refine ⟨{ evaluator with work := final }, serves.keep sized rfl, ?_⟩
      simp only [perform_bind, perform_get, performed, perform_readOutputs, read]
    · refine ⟨{ evaluator with work := final }, serves.keep sized rfl, ?_, rfl⟩
      simp only [perform_bind, perform_get, performed, perform_readOutputs, read]

section Derivatives

variable {arithmetic : Arithmetic α} (valid : tape.Valid) (computes : algebra.Computes arithmetic)

include valid computes

theorem refines_forwardAd (inputs : List (List α)) (seeds : List (Seed α)) :
    Refines tape options algebra one (forwardAd inputs seeds) (Session.forwardAd inputs seeds) := by
  refine .get_bind fun _ _ => (Refines.lift _).bind fun _ => ?_
  refine (refines_load valid inputs).bind fun _ => .onWork fun evaluator serves => ?_
  rw [← serves.tape_eq] at valid
  rw [← serves.algebra_eq] at computes
  rw [computes.forward_recorded valid.bounded]
  rcases Lanes.scatterLanes valid.inputsBelow evaluator.algebra.zero seeds with
    ⟨tangents, scattered, lanes⟩
  rw [computes.zero] at lanes
  have followed := follows_tangents serves.sized valid.bounded computes lanes
  rw [List.length_map] at followed
  rcases recorded : evaluator.tape.recorded evaluator.algebra evaluator.work with
    cause | ⟨final, record⟩ <;> rw [recorded] at followed
  · rcases followed with ⟨_, reached, performed, sized, left, -, rfl⟩
    refine ⟨{ evaluator with work := reached.1, tangents := left }, serves.keep sized rfl, ?_⟩
    simp only [perform_bind, perform_get, resized_empty, scattered, perform_lift, perform_set, performed]
  · rcases followed with ⟨_, performed, sized, left, pushed, rfl⟩
    have sensitivities : (readLanes seeds.length evaluator.tape.outputs left : Except Error _) =
        .ok (seeds.map (arithmetic.pushedSeed evaluator.tape record)) := by
      have read := pushed.readLanes valid.outputsBelow
      simp only [List.length_map, List.map_map] at read
      rw [read]
      exact congrArg Except.ok (List.map_congr_left fun seed _ => Seed.ofVector_slots _)
    rw [ok_bind]
    rcases read : (readBlocks evaluator.tape.outputs final : Except Error _) with cause | values
    · refine ⟨{ evaluator with work := final, tangents := left }, serves.keep sized rfl, ?_⟩
      simp only [perform_bind, perform_get, resized_empty, scattered, perform_lift, perform_set,
        performed, sensitivities, perform_readOutputs, read]
    · refine ⟨{ evaluator with work := final, tangents := left }, serves.keep sized rfl, ?_, rfl⟩
      simp only [perform_bind, perform_get, resized_empty, scattered, perform_lift, perform_set,
        performed, sensitivities, perform_readOutputs, read, perform_pure]

theorem refines_reverseAd (inputs : List (List α)) (seeds : List (Seed α)) :
    Refines tape options algebra one (reverseAd inputs seeds) (Session.reverseAd inputs seeds) := by
  refine .get_bind fun _ _ => (Refines.lift _).bind fun _ => ?_
  refine (refines_load valid inputs).bind fun _ => .onWork fun evaluator serves => ?_
  rw [← serves.tape_eq] at valid
  rw [← serves.algebra_eq] at computes
  rw [computes.reverse_recorded valid.bounded]
  have followed := follows_recorded serves.sized
  rcases recorded : evaluator.tape.recorded evaluator.algebra evaluator.work with
    cause | ⟨final, record⟩ <;> rw [recorded] at followed
  · rcases followed with ⟨_, reached, performed, sized, rfl⟩
    refine ⟨{ evaluator with work := reached.1, partials := (reached.2.map Prod.snd).reverse.toArray },
      serves.keep sized rfl, ?_⟩
    simp only [perform_bind, perform_get, perform_modify, performed]
  · rcases followed with ⟨_, performed, sized, rfl⟩
    rw [ok_bind]
    let between : Evaluator α :=
      { evaluator with work := final, partials := (record.map Prod.snd).reverse.toArray }
    rcases read : (readBlocks evaluator.tape.outputs final : Except Error _) with cause | values
    · refine ⟨between, serves.keep sized rfl, ?_⟩
      simp only [perform_bind, perform_get, perform_modify, performed, perform_readOutputs, read, between]
    · rcases perform_pullSeeds between valid.bounded computes (Tape.records_of_recorded recorded) rfl
        seeds with ⟨adjoints, pulled⟩
      refine ⟨{ between with adjoints }, serves.keep sized rfl, ?_, rfl⟩
      simp only [perform_bind, perform_get, perform_modify, performed, perform_readOutputs, read]
      rw [pulled]
      rfl

end Derivatives

/-! ### Calls with many sweeps -/

section Calls

variable {arithmetic : Arithmetic α} (valid : tape.Valid) (computes : algebra.Computes arithmetic)
  (inputs : List (List α)) (iind oind : Nat)

include valid computes

theorem refines_gradient :
    Refines tape options algebra one (gradient inputs oind) (Session.gradient inputs oind) :=
  .get_bind fun evaluator _ =>
    Refines.compositional.gradientBy evaluator.toSession (refines_reverseAd valid computes inputs) oind

theorem refines_jacobianForward :
    Refines tape options algebra one (jacobianForward inputs iind oind)
      (Session.jacobianForward inputs iind oind) :=
  .get_bind fun evaluator _ => Refines.compositional.jacobianByColumns evaluator.toSession
    (refines_forwardAd valid computes inputs) iind oind

theorem refines_jacobianReverse :
    Refines tape options algebra one (jacobianReverse inputs iind oind)
      (Session.jacobianReverse inputs iind oind) :=
  .get_bind fun evaluator _ => Refines.compositional.jacobianByRows evaluator.toSession
    (refines_reverseAd valid computes inputs) iind oind

theorem refines_jacobian :
    Refines tape options algebra one (jacobian inputs iind oind)
      (Session.jacobian inputs iind oind) :=
  .get_bind fun evaluator _ => Refines.compositional.jacobianBy evaluator.toSession
    (refines_jacobianForward valid computes inputs iind oind)
    (refines_jacobianReverse valid computes inputs iind oind) iind oind

theorem refines_sparseJacobian :
    Refines tape options algebra one (sparseJacobian inputs iind oind)
      (Session.sparseJacobian inputs iind oind) :=
  .get_bind fun evaluator _ => Refines.compositional.sparseJacobianBy evaluator.toSession
    (refines_forwardAd valid computes inputs) (refines_reverseAd valid computes inputs) iind oind

end Calls

end Evaluator

end Autodiff
