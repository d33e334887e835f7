import Autodiff.Proofs.Evaluator.Refinement
import Autodiff.Proofs.Session.Settling

/-!
# Outcomes that do not depend on the arrays

A call on an evaluator has the outcome of a session call, and on a valid tape that outcome is the same
whatever the working array holds. So it depends on nothing that earlier calls may have left behind. Evaluation
into buffers of the caller runs the same sweep as evaluation and then refills the buffers one after the
other. Nothing can fail once the first buffer is refilled, so the buffers hold either all of the new values
or what they held before.
-/

namespace Autodiff

namespace Evaluator

variable {α β γ : Type}

section Outcomes

variable (tape : Tape) (options : EvalOptions) (algebra : Algebra (Except Error) α) (one : α)

/-- Whatever the arrays hold, the call has the outcome, and the next call can start from what it leaves. -/
def Concludes (call : EvaluatorM α β) (outcome : Except Error β) : Prop :=
  ∀ evaluator, Serves tape options algebra one evaluator →
    ∃ after, Serves tape options algebra one after ∧ evaluator.perform call = (outcome, after)

variable {tape options algebra one}

theorem Refines.concludes {call : EvaluatorM α β} {spec : SessionM α β} {fails : Error → Prop}
    {returns : β → Prop} (refines : Refines tape options algebra one call spec)
    (settles : Session.Settles tape options algebra one fails returns spec) :
    ∃ outcome, Ends fails returns outcome ∧ Concludes tape options algebra one call outcome := by
  rcases settles with ⟨outcome, ends, settled⟩
  refine ⟨outcome, ends, fun evaluator serves => ?_⟩
  rcases refines evaluator serves with ⟨after, afterServes, performed, -⟩
  refine ⟨after, afterServes, ?_⟩
  cases serves with
  | holding work =>
      rcases settled work with ⟨_, specified⟩
      rw [performed, specified]

end Outcomes

/-! ## Performing calls -/

section Buffers

variable (evaluator : Evaluator α) (buffers : List (List α))

theorem performInto_bind (first : BufferedM α β) (next : β → BufferedM α γ) :
    evaluator.performInto buffers (first >>= next) = match evaluator.performInto buffers first with
      | (.ok value, after, filled) => after.performInto filled (next value)
      | (.error cause, after, filled) => (.error cause, after, filled) := by
  simp only [performInto, ExceptT.run_bind, StateT.run_bind]
  rcases first.run.run (evaluator, buffers) with ⟨_ | _, _⟩ <;> rfl

@[simp] theorem performInto_get :
    evaluator.performInto buffers get = (.ok (evaluator, buffers), evaluator, buffers) := rfl

@[simp] theorem performInto_set (after : Evaluator α) (filled : List (List α)) :
    evaluator.performInto buffers (set (after, filled)) = (.ok (), after, filled) := rfl

@[simp] theorem performInto_lift (computed : Except Error β) :
    evaluator.performInto buffers (liftM computed) = (computed, evaluator, buffers) := by
  cases computed <;> rfl

@[simp] theorem performInto_besides (call : EvaluatorM α β) :
    evaluator.performInto buffers (besides call) =
      ((evaluator.perform call).1, (evaluator.perform call).2, buffers) := rfl

/-! ## Refilling -/

theorem performInto_refill {numbered : Block × Nat} {entries : List α}
    (read : (numbered.1.slots.mapM (readSlot evaluator.work) : Except Error _) = .ok entries) :
    evaluator.performInto buffers (refill numbered) =
      (.ok (), evaluator, buffers.set numbered.2 entries) := by
  rw [refill, performInto_bind, performInto_get]
  simp only [performInto_bind, read, performInto_lift, performInto_set]

/-- Refilling goes from the first buffer to the last; `done` holds those that are refilled already. -/
theorem performInto_refills {blocks : List Block} {values : List (List α)}
    (read : (readBlocks blocks evaluator.work : Except Error _) = .ok values) (done : List (List α))
    {rest : List (List α)} (counted : rest.length = blocks.length) :
    evaluator.performInto (done ++ rest) ((blocks.zipIdx done.length).forM refill) =
      (.ok (), evaluator, done ++ values) := by
  induction blocks generalizing done rest values with
  | nil =>
      obtain rfl := List.length_eq_zero_iff.mp counted
      cases read
      rfl
  | cons block blocks ih =>
      rcases List.forall₂_cons_left_iff.mp (mapM_eq_ok.mp read) with ⟨entries, others, first, tail, rfl⟩
      cases rest with
      | nil => simp at counted
      | cons buffer rest =>
          have unfolded : ((block :: blocks).zipIdx done.length).forM (@refill α) =
              (refill (block, done.length) >>= fun _ => (blocks.zipIdx (done.length + 1)).forM refill) :=
            rfl
          have placed : (done ++ buffer :: rest).set done.length entries = (done ++ [entries]) ++ rest := by
            simp
          have shifted := ih (mapM_eq_ok.mpr tail) (done ++ [entries]) (by simpa using counted)
          rw [List.length_append, List.length_singleton] at shifted
          rw [unfolded, performInto_bind, performInto_refill _ _ first]
          dsimp only
          rw [placed, shifted, List.append_assoc]
          rfl

end Buffers

/-! ## Evaluation -/

section Evaluation

variable {tape : Tape} {options : EvalOptions} {algebra : Algebra (Except Error) α} {one : α}
  {fails : Error → Prop}

theorem performInto_evaluateInto (valid : tape.Valid) {evaluator : Evaluator α}
    (serves : Serves tape options algebra one evaluator) (buffers point : List (List α))
    (counted : buffers.length = tape.outputs.length) :
    evaluator.performInto buffers (evaluateInto point) =
      match evaluator.perform (evaluate point) with
      | (.ok values, after) => (.ok (), after, values)
      | (.error cause, after) => (.error cause, after, buffers) := by
  rcases refines_load valid point evaluator serves with ⟨loaded, loadedServes, performed, -⟩
  have sameTape : evaluator.tape = loaded.tape := serves.tape_eq.trans loadedServes.tape_eq.symm
  rw [← loadedServes.tape_eq] at valid counted
  rw [evaluateInto, performInto_bind, performInto_get]
  simp only [sameTape, counted, ne_eq, not_true_eq_false, if_false, performInto_bind,
    performInto_besides, evaluate, perform_bind, performed, perform_get]
  rcases (evaluator.toSession.perform (Session.load point)).1 with cause | _
  · rfl
  have followed := follows_primal loadedServes.sized
  rcases ran : loaded.tape.primal loaded.algebra loaded.work with cause | final <;>
    rw [ran] at followed
  · rcases followed with ⟨_, reached, swept, -, rfl⟩
    simp only [swept]
  · rcases followed with ⟨_, swept, sized, rfl⟩
    have inside : Ends (fun _ => False) _ (readBlocks loaded.tape.outputs final : Except Error _) :=
      ends_readBlocks valid.outputsBelow sized
    rcases inside.outcome with ⟨values, -, read⟩ | ⟨_, impossible, -⟩
    · have filled := performInto_refills { loaded with work := final } read [] counted
      simp only [swept, perform_readOutputs, read]
      exact filled
    · exact impossible.elim

/-- Evaluation into buffers has one outcome, and a failure leaves the buffers as they were. -/
theorem exists_filled (valid : tape.Valid) (guarded : algebra.Guarded fails)
    (reported : ∀ reason, fails (.evaluation reason)) (buffers point : List (List α)) :
    ∃ outcome filled, Ends fails (fun _ => True) outcome ∧
      (∀ cause, outcome = .error cause → filled = buffers) ∧
      ∀ evaluator, Serves tape options algebra one evaluator →
        ∃ after, Serves tape options algebra one after ∧
          evaluator.performInto buffers (evaluateInto point) = (outcome, after, filled) := by
  by_cases counted : buffers.length = tape.outputs.length
  · have settles : Session.Settles tape options algebra one fails _ (Session.evaluate point) :=
      Session.settles_evaluate valid guarded reported point
    rcases (refines_evaluate valid point).concludes settles with ⟨cause | values, ends, concludes⟩
    · refine ⟨.error cause, buffers, ends, fun _ _ => rfl, fun evaluator serves => ?_⟩
      rcases concludes evaluator serves with ⟨after, afterServes, performed⟩
      exact ⟨after, afterServes, by rw [performInto_evaluateInto valid serves _ _ counted, performed]⟩
    · refine ⟨.ok (), values, trivial, nofun, fun evaluator serves => ?_⟩
      rcases concludes evaluator serves with ⟨after, afterServes, performed⟩
      exact ⟨after, afterServes, by rw [performInto_evaluateInto valid serves _ _ counted, performed]⟩
  · refine ⟨.error (.evaluation (.outputCount tape.outputs.length buffers.length)), buffers,
      reported _, fun _ _ => rfl, fun evaluator serves => ⟨evaluator, serves, ?_⟩⟩
    rw [evaluateInto, performInto_bind, performInto_get]
    simp only [serves.tape_eq, ne_eq, counted, not_false_eq_true, if_true]
    rfl

end Evaluation

end Evaluator

end Autodiff
