import Autodiff.Evaluator.Basic
import Autodiff.Proofs.Session.Directions
import Autodiff.Proofs.Tape.Lanes

/-!
# Sweeps in place

A sweep of an evaluator changes its arrays step by step. It follows the loop of a sweep that returns new arrays
(`follows_sweep`): both take corresponding steps, and both stop at the same instruction. What the
evaluator holds after some steps is said by `Computing`, `Recording` and `Pushing`, one for each sweep
that can fail; the sweep over stored partials cannot (`foldlM_adjointStep`).
-/

namespace Autodiff

namespace Evaluator

variable {α β γ : Type}

/-! ## Performing calls -/

theorem perform_bind (evaluator : Evaluator α) (first : EvaluatorM α β) (next : β → EvaluatorM α γ) :
    evaluator.perform (first >>= next) = match evaluator.perform first with
      | (.ok value, after) => after.perform (next value)
      | (.error cause, after) => (.error cause, after) := by
  simp only [perform, ExceptT.run_bind, StateT.run_bind]
  rcases first.run.run evaluator with ⟨_ | _, _⟩ <;> rfl

@[simp] theorem perform_pure (evaluator : Evaluator α) (value : β) :
    evaluator.perform (pure value) = (.ok value, evaluator) := rfl

@[simp] theorem perform_get (evaluator : Evaluator α) :
    evaluator.perform get = (.ok evaluator, evaluator) := rfl

@[simp] theorem perform_set (evaluator after : Evaluator α) :
    evaluator.perform (set after) = (.ok (), after) := rfl

@[simp] theorem perform_modify (evaluator : Evaluator α) (change : Evaluator α → Evaluator α) :
    evaluator.perform (modify change) = (.ok (), change evaluator) := rfl

@[simp] theorem perform_lift (evaluator : Evaluator α) (computed : Except Error β) :
    evaluator.perform (liftM computed) = (computed, evaluator) := by
  cases computed <;> rfl

@[simp] theorem perform_onSession (evaluator : Evaluator α) (call : SessionM α β) :
    evaluator.perform (onSession call) = ((evaluator.toSession.perform call).1,
      { evaluator with toSession := (evaluator.toSession.perform call).2 }) := rfl

theorem perform_onSession_bind (evaluator : Evaluator α) (first : SessionM α β)
    (next : β → SessionM α γ) :
    evaluator.perform (onSession first >>= fun value => onSession (next value)) =
      evaluator.perform (onSession (first >>= next)) := by
  simp only [perform_bind, perform_onSession, Session.perform_bind]
  rcases evaluator.toSession.perform first with ⟨_ | _, _⟩ <;> rfl

/-! ## Sweeps -/

section Sweeps

variable {σ : Type} {related : σ → Evaluator α → Prop}
  {step : Evaluator α → Instruction × Nat → Except Error (Evaluator α)}
  {instructions : List (Instruction × Nat)} {evaluator : Evaluator α}

/-- The call ends as a computation without a state does. If it succeeds, the evaluator holds the result;
otherwise it holds what was reached. -/
def Follows (related : σ → Evaluator α → Prop) (evaluator : Evaluator α) (call : EvaluatorM α Unit) :
    Except Error σ → Prop
  | .ok final => ∃ after, evaluator.perform call = (.ok (), after) ∧ related final after
  | .error cause => ∃ after reached, evaluator.perform call = (.error cause, after) ∧ related reached after

theorem follows_sweep {other : σ → Instruction × Nat → Except Error σ}
    (alike : ∀ numbered ∈ instructions, ∀ state evaluator, related state evaluator →
      Paired related (other state numbered) (step evaluator numbered))
    {state : σ} (start : related state evaluator) :
    Follows related evaluator (sweep step instructions) (instructions.foldlM other state) := by
  induction instructions generalizing state evaluator with
  | nil => exact ⟨evaluator, rfl, start⟩
  | cons numbered instructions ih =>
      rw [List.forall_mem_cons] at alike
      have unfolded : evaluator.perform (sweep step (numbered :: instructions)) =
          match step evaluator numbered with
          | .ok moved => moved.perform (sweep step instructions)
          | .error cause => (.error cause, evaluator) := by
        have split : sweep step (numbered :: instructions) =
            ((do set (← liftM (step (← get) numbered))) >>= fun _ => sweep step instructions) := rfl
        rw [split]
        simp only [perform_bind, perform_get, perform_lift]
        cases step evaluator numbered <;> rfl
      have stepped := alike.1 state evaluator start
      rw [List.foldlM_cons]
      cases followed : other state numbered with
      | error reason =>
          cases moved : step evaluator numbered with
          | error cause =>
              rw [moved, followed] at stepped
              exact ⟨evaluator, state, by rw [unfolded, moved, stepped], start⟩
          | ok next =>
              rw [moved, followed] at stepped
              exact stepped.elim
      | ok nextState =>
          cases moved : step evaluator numbered with
          | error cause =>
              rw [moved, followed] at stepped
              exact stepped.elim
          | ok next =>
              rw [moved, followed] at stepped
              have rest := ih alike.2 stepped
              simp only [Follows, unfolded, moved] at rest ⊢
              exact rest

theorem perform_sweep_of_ok {final : Evaluator α}
    (ran : instructions.foldlM step evaluator = .ok final) :
    evaluator.perform (sweep step instructions) = (.ok (), final) := by
  have alike : ∀ numbered ∈ instructions, ∀ state evaluator : Evaluator α, state = evaluator →
      Paired Eq (step state numbered) (step evaluator numbered) := by
    rintro numbered _ state _ rfl
    cases step state numbered <;> exact rfl
  have followed : Follows Eq evaluator (sweep step instructions)
      (instructions.foldlM step evaluator) := follows_sweep alike rfl
  rw [ran] at followed
  obtain ⟨after, performed, rfl⟩ := followed
  exact performed

end Sweeps

/-! ### Steps -/

variable {arithmetic : Arithmetic α} {planes : List (Nat → α)}

section Steps

variable (base : Evaluator α) (size : Nat)

def Computing (work : Array α) (evaluator : Evaluator α) : Prop :=
  work.size = size ∧ evaluator = { base with work }

def Recording (state : Array α × Record α) (evaluator : Evaluator α) : Prop :=
  state.1.size = size ∧ evaluator =
    { base with work := state.1, partials := (state.2.map Prod.snd).reverse.toArray }

/-- The evaluator after some steps of the sweep with tangents. -/
def Pushing (arithmetic : Arithmetic α) (planes : List (Nat → α)) (state : Array α × Record α)
    (evaluator : Evaluator α) : Prop :=
  state.1.size = size ∧ ∃ tangents, Lanes size (planes.map (arithmetic.pushAll state.2)) tangents ∧
    evaluator = { base with work := state.1, tangents }

variable {base size} {numbered : Instruction × Nat} {evaluator : Evaluator α}

theorem size_of_writeSlot {array after : Array α} {slot : Nat} {element : α}
    (written : (writeSlot array slot element : Except Error _) = .ok after) :
    after.size = array.size := by
  simp only [writeSlot] at written
  split at written
  · cases written
    simp
  · cases written

theorem Computing.step {work : Array α} (computing : Computing base size work evaluator) :
    Paired (Computing base size) (Autodiff.primalStep base.algebra work numbered)
      (primalStep evaluator numbered) := by
  obtain ⟨sized, rfl⟩ := computing
  cases stepped : Autodiff.primalStep base.algebra work numbered with
  | error cause => simp only [primalStep, stepped, error_bind, Paired]
  | ok after =>
      rcases bind_eq_ok.mp stepped with ⟨_, _, written⟩
      simp only [primalStep, stepped, ok_bind]
      exact ⟨(size_of_writeSlot written).trans sized, rfl⟩

theorem Recording.step {state : Array α × Record α} (recording : Recording base size state evaluator) :
    Paired (Recording base size) (Autodiff.recordStep base.algebra state numbered)
      (recordStep evaluator numbered) := by
  obtain ⟨sized, rfl⟩ := recording
  refine Paired.bind_same fun step _ => Paired.bind_same fun weights _ => ?_
  refine Paired.bind_same fun work written => ?_
  refine ⟨(size_of_writeSlot written).trans sized, ?_⟩
  simp

theorem Pushing.step (computes : base.algebra.Computes arithmetic) (below : numbered.1.Below size)
    {state : Array α × Record α} (pushing : Pushing base size arithmetic planes state evaluator) :
    Paired (Pushing base size arithmetic planes) (Autodiff.recordStep base.algebra state numbered)
      (tangentStep planes.length evaluator numbered) := by
  obtain ⟨sized, tangents, lanes, rfl⟩ := pushing
  refine Paired.bind_same fun step _ => Paired.bind_same fun weights _ => ?_
  rcases lanes.pushLanes computes below weights with ⟨after, pushed, moved⟩
  rw [List.length_map] at pushed
  simp only [pushed, ok_bind]
  refine Paired.bind_same fun work written => ?_
  refine ⟨(size_of_writeSlot written).trans sized, after, ?_, rfl⟩
  rw [List.map_map] at moved
  exact moved

end Steps

/-! ### Adjoints -/

/-- The sweep over stored partials pulls every lane back. It meets the instructions of the record in the
order of the record, and the partials of the first one are the last ones that were stored. -/
theorem foldlM_adjointStep {base : Evaluator α} (computes : base.algebra.Computes arithmetic) {size : Nat}
    {record : Record α} (below : record.Below size) (kept : (record.map Prod.snd).reverse <+: base.partials.toList)
    {adjoints : Array α} (lanes : Lanes size planes adjoints) :
    ∃ after, (record.map Prod.fst).reverse.zipIdx.reverse.foldlM (adjointStep planes.length)
        { base with adjoints } = .ok { base with adjoints := after } ∧
      Lanes size (planes.map (arithmetic.pullAll record)) after := by
  induction record generalizing planes adjoints with
  | nil =>
      have unmoved : planes.map (arithmetic.pullAll []) = planes := List.map_id _
      exact ⟨adjoints, rfl, by rwa [unmoved]⟩
  | cons recorded record ih =>
      rw [Record.Below, List.forall_mem_cons] at below
      rw [List.map_cons, List.reverse_cons] at kept
      have last : base.partials[record.length]? = some recorded.2 := by
        rcases kept with ⟨beyond, equal⟩
        rw [← Array.getElem?_toList, ← equal]
        simp
      rcases lanes.pullLanes computes below.1 recorded.2 with ⟨between, pulled, moved⟩
      have stepped : adjointStep planes.length { base with adjoints } (recorded.1, record.length) =
          .ok { base with adjoints := between } := by
        simp only [adjointStep, readSlot_eq_pure last, pure_bind, pulled, ok_bind]
        rfl
      have rest := ih below.2 ((List.prefix_append _ _).trans kept) moved
      rw [List.length_map, List.map_map] at rest
      rw [List.map_cons, List.reverse_cons, List.zipIdx_append, List.reverse_append]
      simp only [List.length_reverse, List.length_map, Nat.zero_add, List.zipIdx_singleton,
        List.reverse_singleton, List.singleton_append, List.foldlM_cons, stepped, ok_bind]
      exact rest

/-! ### Runs -/

section Runs

variable {base : Evaluator α} (sized : base.work.size = base.tape.numSlots)

include sized

theorem follows_primal :
    Follows (Computing base base.tape.numSlots) base
      (sweep primalStep base.tape.instructions.zipIdx) (base.tape.primal base.algebra base.work) :=
  follows_sweep (fun _ _ _ _ computing => computing.step) ⟨sized, rfl⟩

theorem follows_recorded :
    Follows (Recording base base.tape.numSlots) { base with partials := #[] }
      (sweep recordStep base.tape.instructions.zipIdx)
      (base.tape.recorded base.algebra base.work) :=
  follows_sweep (fun _ _ _ _ recording => recording.step) ⟨sized, rfl⟩

theorem follows_tangents (bounded : base.tape.Bounded) (computes : base.algebra.Computes arithmetic)
    {tangents : Array α} (lanes : Lanes base.tape.numSlots planes tangents) :
    Follows (Pushing base base.tape.numSlots arithmetic planes) { base with tangents }
      (sweep (tangentStep planes.length) base.tape.instructions.zipIdx)
      (base.tape.recorded base.algebra base.work) := by
  refine follows_sweep (fun numbered member _ _ pushing => ?_) ⟨sized, tangents, ?_, rfl⟩
  · exact pushing.step computes
      (bounded.instructions numbered.1 (List.fst_mem_of_mem_zipIdx member))
  · have unmoved : planes.map (arithmetic.pushAll []) = planes := List.map_id _
    rwa [unmoved]

end Runs

theorem resized_eq {array : Array α} {size : Nat} (sized : array.size = size) (element : α) :
    resized array size element = array := by
  subst sized
  simp [resized]

theorem resized_empty (size : Nat) (element : α) :
    resized #[] size element = Array.replicate size element := by
  simp [resized]

theorem perform_pullSeeds (base : Evaluator α) (bounded : base.tape.Bounded)
    (computes : base.algebra.Computes arithmetic) {record : Record α} (records : base.tape.Records record)
    (kept : base.partials = (record.map Prod.snd).reverse.toArray) (seeds : List (Seed α)) :
    ∃ adjoints, base.perform (pullSeeds seeds) =
      (.ok (seeds.map (arithmetic.pulledSeed base.tape record)), { base with adjoints }) := by
  rcases Lanes.scatterAddLanes computes bounded.outputs seeds with ⟨adjoints, scattered, lanes⟩
  have isPrefix : (record.map Prod.snd).reverse <+: base.partials.toList := by rw [kept]
  rcases foldlM_adjointStep computes (records.inside bounded) isPrefix lanes with ⟨left, ran, pulled⟩
  rw [records, List.reverse_reverse, List.length_map] at ran
  have read := pulled.readLanes bounded.inputs
  simp only [List.length_map, List.map_map] at read
  refine ⟨left, ?_⟩
  simp only [pullSeeds, perform_bind, perform_get, resized_empty, scattered, perform_lift, perform_set,
    perform_sweep_of_ok ran, read]
  congr 2
  exact List.map_congr_left fun seed _ => Seed.ofVector_slots _

end Evaluator

end Autodiff
