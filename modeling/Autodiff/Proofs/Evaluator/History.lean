import Autodiff.Evaluator.Parallel
import Autodiff.Proofs.Dependency.Propagation
import Autodiff.Proofs.Evaluator.Buffers
import Autodiff.Proofs.Scalar.Exact
import Autodiff.Scalar.Float

/-!
# Evaluators without history

Every call on a valid tape has one outcome, so two things hold for whatever was called before on the same
evaluator. The call is answered: with a result or with a failure that it reports. And the answer is the one
that a new evaluator gives. Workers that each take some items of a batch on an evaluator of their own therefore
find the same results in whatever way the items are spread over them.
-/

namespace Autodiff

/-- The calls on an evaluator with their arguments. -/
inductive Call (α : Type) where
  | evaluate (inputs : List (List α))
  | evaluateInto (inputs buffers : List (List α))
  | forwardAd (inputs : List (List α)) (seeds : List (Seed α))
  | reverseAd (inputs : List (List α)) (seeds : List (Seed α))
  | gradient (inputs : List (List α)) (oind : Nat)
  | jacobian (inputs : List (List α)) (iind oind : Nat)
  | jacobianForward (inputs : List (List α)) (iind oind : Nat)
  | jacobianReverse (inputs : List (List α)) (iind oind : Nat)
  | sparseJacobian (inputs : List (List α)) (iind oind : Nat)

/-- Sparse Jacobians need not end: a width of zero directions makes no progress. -/
def Call.IsSparse {α : Type} : Call α → Prop
  | .sparseJacobian .. => True
  | _ => False

/-- What the caller sees of a call. -/
inductive Response (α : Type) where
  | vectors (outcome : Except Error (List (List α)))
  | derivatives (outcome : Except Error (Derivatives α))
  | sparse (outcome : Except Error (Pattern × List α))
  | filled (outcome : Except Error Unit) (buffers : List (List α))
deriving DecidableEq

/-- A result, or a failure that is reported. -/
def Answered {β : Type} (outcome : Except Error β) : Prop :=
  Ends Error.IsEvaluation (fun _ => True) outcome

def Response.Answered {α : Type} : Response α → Prop
  | .vectors outcome => Autodiff.Answered outcome
  | .derivatives outcome => Autodiff.Answered outcome
  | .sparse outcome => Autodiff.Answered outcome
  | .filled outcome _ => Autodiff.Answered outcome

namespace Evaluator

variable {α β : Type}

def reply (evaluator : Evaluator α) (view : Except Error β → Response α) (call : EvaluatorM α β) :
    Response α × Evaluator α :=
  (view (evaluator.perform call).1, (evaluator.perform call).2)

def respond (evaluator : Evaluator α) : Call α → Response α × Evaluator α
  | .evaluate inputs => evaluator.reply .vectors (evaluate inputs)
  | .evaluateInto inputs buffers =>
    let (outcome, after, filled) := evaluator.performInto buffers (evaluateInto inputs)
    (.filled outcome filled, after)
  | .forwardAd inputs seeds => evaluator.reply .derivatives (forwardAd inputs seeds)
  | .reverseAd inputs seeds => evaluator.reply .derivatives (reverseAd inputs seeds)
  | .gradient inputs oind => evaluator.reply .vectors (gradient inputs oind)
  | .jacobian inputs iind oind => evaluator.reply .vectors (jacobian inputs iind oind)
  | .jacobianForward inputs iind oind => evaluator.reply .vectors (jacobianForward inputs iind oind)
  | .jacobianReverse inputs iind oind => evaluator.reply .vectors (jacobianReverse inputs iind oind)
  | .sparseJacobian inputs iind oind => evaluator.reply .sparse (sparseJacobian inputs iind oind)

def after (evaluator : Evaluator α) (history : List (Call α)) : Evaluator α :=
  history.foldl (fun evaluator call => (evaluator.respond call).2) evaluator

/-! ## One call -/

section Responses

variable {tape : Tape} {options : EvalOptions} {algebra : Algebra (Except Error) α} {one : α}

/-- Whatever the arrays hold, the call has the response, and the next call can start from what it leaves. -/
def Responds (tape : Tape) (options : EvalOptions) (algebra : Algebra (Except Error) α) (one : α)
    (call : Call α) (response : Response α) : Prop :=
  ∀ evaluator, Serves tape options algebra one evaluator →
    ∃ after, Serves tape options algebra one after ∧ evaluator.respond call = (response, after)

theorem Concludes.responds {call : EvaluatorM α β} {outcome : Except Error β}
    (concludes : Concludes tape options algebra one call outcome)
    (view : Except Error β → Response α) (request : Call α)
    (isReply : ∀ evaluator : Evaluator α, evaluator.respond request = evaluator.reply view call) :
    Responds tape options algebra one request (view outcome) := by
  intro evaluator serves
  rcases concludes evaluator serves with ⟨after, afterServes, performed⟩
  exact ⟨after, afterServes, by rw [isReply, reply, performed]⟩

theorem Refines.exists_answer {call : EvaluatorM α β} {spec : SessionM α β} {returns : β → Prop}
    (refines : Refines tape options algebra one call spec)
    (settles : Session.Settles tape options algebra one Error.IsEvaluation returns spec)
    (view : Except Error β → Response α) (request : Call α)
    (isReply : ∀ evaluator : Evaluator α, evaluator.respond request = evaluator.reply view call)
    (shows : ∀ outcome, Answered outcome → (view outcome).Answered) :
    ∃ response, (¬ request.IsSparse → response.Answered) ∧
      Responds tape options algebra one request response := by
  rcases refines.concludes settles with ⟨outcome, ends, concludes⟩
  have answered : Answered outcome := ends.mono (fun _ => id) fun _ _ => trivial
  exact ⟨view outcome, fun _ => shows outcome answered, concludes.responds view request isReply⟩

/-- Every call on a valid tape has one response, and unless it is a sparse Jacobian it is answered. -/
theorem exists_response (valid : tape.Valid) (guarded : algebra.Guarded Error.IsEvaluation)
    {arithmetic : Arithmetic α} (computes : algebra.Computes arithmetic) (call : Call α) :
    ∃ response, (¬ call.IsSparse → response.Answered) ∧
      Responds tape options algebra one call response := by
  cases call with
  | evaluate inputs =>
      exact (refines_evaluate valid inputs).exists_answer
        (Session.settles_evaluate valid guarded Error.isEvaluation inputs) .vectors (.evaluate inputs)
        (fun _ => rfl) fun _ => id
  | evaluateInto inputs buffers =>
      rcases exists_filled valid guarded Error.isEvaluation buffers inputs with
        ⟨outcome, filled, ends, -, performed⟩
      refine ⟨.filled outcome filled, fun _ => ends, fun evaluator serves => ?_⟩
      rcases performed evaluator serves with ⟨after, afterServes, equal⟩
      exact ⟨after, afterServes, by rw [respond, equal]⟩
  | forwardAd inputs seeds =>
      exact (refines_forwardAd valid computes inputs seeds).exists_answer
        (Session.settles_forwardAd valid guarded Error.isEvaluation inputs seeds) .derivatives
        (.forwardAd inputs seeds) (fun _ => rfl) fun _ => id
  | reverseAd inputs seeds =>
      exact (refines_reverseAd valid computes inputs seeds).exists_answer
        (Session.settles_reverseAd valid guarded Error.isEvaluation inputs seeds) .derivatives
        (.reverseAd inputs seeds) (fun _ => rfl) fun _ => id
  | gradient inputs oind =>
      exact (refines_gradient valid computes inputs oind).exists_answer
        (Session.settles_gradient valid guarded Error.isEvaluation inputs oind) .vectors
        (.gradient inputs oind) (fun _ => rfl) fun _ => id
  | jacobian inputs iind oind =>
      exact (refines_jacobian valid computes inputs iind oind).exists_answer
        (Session.settles_jacobian valid guarded Error.isEvaluation inputs iind oind) .vectors
        (.jacobian inputs iind oind) (fun _ => rfl) fun _ => id
  | jacobianForward inputs iind oind =>
      exact (refines_jacobianForward valid computes inputs iind oind).exists_answer
        (Session.settles_jacobianForward valid guarded Error.isEvaluation inputs iind oind) .vectors
        (.jacobianForward inputs iind oind) (fun _ => rfl) fun _ => id
  | jacobianReverse inputs iind oind =>
      exact (refines_jacobianReverse valid computes inputs iind oind).exists_answer
        (Session.settles_jacobianReverse valid guarded Error.isEvaluation inputs iind oind) .vectors
        (.jacobianReverse inputs iind oind) (fun _ => rfl) fun _ => id
  | sparseJacobian inputs iind oind =>
      rcases (refines_sparseJacobian valid computes inputs iind oind).concludes
        (Session.settles_sparseJacobian valid inputs iind oind) with ⟨outcome, -, concludes⟩
      exact ⟨.sparse outcome, fun dense => absurd trivial dense,
        concludes.responds .sparse (.sparseJacobian inputs iind oind) fun _ => rfl⟩

/-! ## Many calls -/

theorem Serves.after (valid : tape.Valid) (guarded : algebra.Guarded Error.IsEvaluation)
    {arithmetic : Arithmetic α} (computes : algebra.Computes arithmetic) {evaluator : Evaluator α}
    (serves : Serves tape options algebra one evaluator) (history : List (Call α)) :
    Serves tape options algebra one (evaluator.after history) := by
  induction history generalizing evaluator with
  | nil => exact serves
  | cons call history ih =>
      rcases exists_response valid guarded computes call with ⟨response, -, responds⟩
      rcases responds evaluator serves with ⟨between, betweenServes, responded⟩
      rw [Evaluator.after, List.foldl_cons, responded]
      exact ih betweenServes

end Responses

/-! ## Numbers -/

section Numbers

variable [Scalar α] {tape : Tape}

theorem numbers_guards {fails : Error → Prop}
    (leaves : ∀ index op, fails (.evaluation (.domain index op))) (policy : DomainPolicy) :
    (numbers policy : Algebra (Except Error) α).Guarded fails where
  constant _ := trivial
  eval op first second notConst := by
    cases op with
    | const => exact absurd rfl notConst
    | unary op => trivial
    | binary op => trivial
  partials _ _ _ _ _ := trivial
  add _ _ := trivial
  mul _ _ := trivial
  isZero _ := trivial
  domain := leaves

theorem numbers_guarded (policy : DomainPolicy) :
    (numbers policy : Algebra (Except Error) α).Guarded Error.IsEvaluation :=
  numbers_guards (fun _ _ => Error.isEvaluation _) policy

theorem serves_new (tape : Tape) (options : EvalOptions) :
    Serves tape options (numbers options.domainPolicy) Scalar.one (new tape options : Evaluator α) :=
  .holding (Vector.replicate tape.numSlots Scalar.zero) #[] #[] #[]

theorem serves_after_new (valid : tape.Valid) (options : EvalOptions) (history : List (Call α)) :
    Serves tape options (numbers options.domainPolicy) Scalar.one ((new tape options).after history) :=
  (serves_new tape options).after valid (numbers_guarded _) (numbers_computes α _) history

theorem respond_eq_new (valid : tape.Valid) (options : EvalOptions) {evaluator : Evaluator α}
    (serves : Serves tape options (numbers options.domainPolicy) Scalar.one evaluator) (call : Call α) :
    (evaluator.respond call).1 = ((new tape options).respond call).1 := by
  rcases exists_response valid (numbers_guarded options.domainPolicy) (numbers_computes α _) call with
    ⟨response, -, responds⟩
  rcases responds evaluator serves with ⟨_, -, responded⟩
  rcases responds _ (serves_new tape options) with ⟨_, -, respondedNew⟩
  rw [responded, respondedNew]

theorem filled_eq_of_error (valid : tape.Valid) (options : EvalOptions) {evaluator : Evaluator α}
    (serves : Serves tape options (numbers options.domainPolicy) Scalar.one evaluator)
    {inputs buffers filled : List (List α)} {cause : Error}
    (responded : (evaluator.respond (.evaluateInto inputs buffers)).1 = .filled (.error cause) filled) :
    filled = buffers := by
  have guarded : (numbers options.domainPolicy : Algebra (Except Error) α).Guarded _ :=
    numbers_guarded options.domainPolicy
  rcases exists_filled valid guarded Error.isEvaluation buffers inputs with
    ⟨outcome, left, -, unchanged, performed⟩
  rcases performed evaluator serves with ⟨after, -, equal⟩
  rw [respond, equal] at responded
  injection responded with isError isFilled
  exact isFilled ▸ unchanged cause isError

end Numbers

end Evaluator

/-! ## Patterns -/

namespace Tape.Valid

variable {tape : Tape} (valid : tape.Valid) (iind oind : Nat)

include valid

theorem answered_jacobianPatternIn (direction : Direction) :
    Answered (tape.jacobianPatternIn iind oind direction) := by
  refine (Session.ends_block Error.isEvaluation tape .input iind).bind fun input isInput => ?_
  refine (Session.ends_block Error.isEvaluation tape .output oind).bind fun output isOutput => ?_
  rcases valid.bounded.exists_patternFromBatches (List.mem_of_getElem? isInput)
    (List.mem_of_getElem? isOutput) direction (covers_range _) with ⟨pattern, found, -⟩
  have answered : Answered (tape.patternFromBatches input output direction
      (List.range (numBatches (direction.seeded input output).slots.length))) := by
    rw [found]
    trivial
  cases direction <;> exact answered

theorem answered_jacobianPattern : Answered (tape.jacobianPattern iind oind) := by
  have preferred : Answered (tape.preferredDirection iind oind) := by
    refine (Session.ends_block Error.isEvaluation tape .input iind).bind fun input _ => ?_
    refine (Session.ends_block Error.isEvaluation tape .output oind).bind fun output _ => ?_
    split <;> trivial
  exact preferred.bind fun direction _ => valid.answered_jacobianPatternIn iind oind direction

end Tape.Valid

/-! ## Batches -/

namespace Evaluator

variable {α β ι : Type}

theorem performEach_eq {tape : Tape} {options : EvalOptions} {algebra : Algebra (Except Error) α}
    {one : α} {call : ι → EvaluatorM α β} {outcome : ι → Except Error β}
    (each : ∀ item, Concludes tape options algebra one (call item) (outcome item))
    {evaluator : Evaluator α} (serves : Serves tape options algebra one evaluator)
    (items : List (ι × Nat)) :
    performEach call evaluator items =
      items.map fun numbered => (outcome numbered.1, numbered.2) := by
  induction items generalizing evaluator with
  | nil => rfl
  | cons numbered items ih =>
      rcases each numbered.1 evaluator serves with ⟨after, afterServes, performed⟩
      rw [performEach, performed, List.map_cons, ← ih afterServes]

theorem mergeSort_eq_of_perm {elements sorted : List (β × Nat)} (perm : elements.Perm sorted)
    (ascending : (sorted.map Prod.snd).Pairwise (· < ·)) :
    elements.mergeSort (fun left right => left.2 ≤ right.2) = sorted := by
  let below : β × Nat → β × Nat → Bool := fun left right => left.2 ≤ right.2
  have transitive : ∀ first second third, below first second → below second third →
      below first third := by
    simp only [below, decide_eq_true_eq]
    omega
  have connected : ∀ first second, (below first second || below second first) = true := by
    simp only [below, Bool.or_eq_true, decide_eq_true_eq]
    omega
  have ordered := List.pairwise_mergeSort transitive connected elements
  have rearranged := (elements.mergeSort_perm below).trans perm
  have increasing : sorted.Pairwise fun left right => below left right = true := by
    refine (List.pairwise_map.mp ascending).imp fun smaller => ?_
    simpa [below] using Nat.le_of_lt smaller
  refine List.Perm.eq_of_pairwise ?_ ordered increasing rearranged
  -- a number occurs only once
  intro left right leftMem rightMem leftBelow rightBelow
  have distinct : (sorted.map Prod.snd).Nodup := ascending.imp Nat.ne_of_lt
  refine List.inj_on_of_nodup_map distinct (rearranged.mem_iff.mp leftMem) rightMem ?_
  simp only [below, decide_eq_true_eq] at leftBelow rightBelow
  omega

/-- The outcomes are found in the order of the items, however they are spread over the workers. -/
theorem collect_eq [Scalar α] {tape : Tape} {call : ι → EvaluatorM α β}
    {outcome : ι → Except Error β}
    (each : ∀ item, Concludes tape {} (numbers DomainPolicy.propagate) (Scalar.one : α) (call item)
      (outcome item))
    {items : List ι} {shares : List (List (ι × Nat))} (spread : shares.flatten.Perm items.zipIdx) :
    collect tape call shares = items.mapM outcome := by
  have worked : shares.flatMap (performEach call (new tape {})) =
      shares.flatten.map fun numbered => (outcome numbered.1, numbered.2) := by
    rw [List.map_flatten, List.flatMap_def]
    exact congrArg List.flatten (List.map_congr_left fun share _ =>
      performEach_eq each (serves_new tape {}) share)
  have ascending : ((items.zipIdx.map fun numbered => (outcome numbered.1, numbered.2)).map
      Prod.snd).Pairwise (· < ·) := by
    have numbers : (items.zipIdx.map fun numbered => (outcome numbered.1, numbered.2)).map Prod.snd =
        items.zipIdx.map Prod.snd := by
      rw [List.map_map]
      rfl
    rw [numbers, List.zipIdx_map_snd]
    exact List.pairwise_lt_range'
  rw [collect, worked, mergeSort_eq_of_perm (spread.map _) ascending, List.mapM_map]
  conv_rhs => rw [← List.zipIdx_map_fst 0 items, List.mapM_map]
  rfl

theorem collect_eq_ok [Scalar α] {tape : Tape} {call : ι → EvaluatorM α β}
    (concludes : ∀ item, ∃ outcome, Concludes tape {} (numbers DomainPolicy.propagate)
      (Scalar.one : α) (call item) outcome)
    {items : List ι} {shares : List (List (ι × Nat))} (spread : shares.flatten.Perm items.zipIdx)
    {results : List β}
    (each : List.Forall₂ (fun item result => oneShot tape (call item) = .ok result) items results) :
    collect tape call shares = .ok results := by
  choose outcome concluded using concludes
  have alone (item : ι) : oneShot tape (call item) = outcome item := by
    rcases concluded item _ (serves_new tape {}) with ⟨after, -, performed⟩
    exact congrArg Prod.fst performed
  rw [collect_eq concluded spread, mapM_eq_ok]
  exact each.imp fun item result equal => (alone item).symm.trans equal

end Evaluator

/-! ## Main results -/

/-- A tape that overwrites its input. -/
def doubledSquare : Tape :=
  ⟨[⟨.binary .add, 0, 0, 0, 0⟩, ⟨.binary .mul, 1, 0, 0, 0⟩], 2, [⟨"x", .scalar, [0]⟩],
    [⟨"y", .scalar, [1]⟩]⟩

theorem doubledSquare_validate : doubledSquare.validate = .ok () := by
  simp [doubledSquare, Tape.validate, Tape.checkInputs, Tape.checkSlotCount, Tape.checkInputSlots,
    Tape.checkInstructions, Tape.checkOutputs, Instruction.spareOperands, Instruction.operands,
    Pattern.nnz, Pattern.scalar]

/-- The response to a call is the one of a new evaluator, whatever was called before and whatever sweeps that
failed may have left in the arrays; evaluation into buffers leaves them as they were unless it succeeds.
Hence batches give the results of single calls, in the order of their items, for every distribution
over workers. -/
theorem Evaluator.history_unobservable {α : Type} [Scalar α] {tape : Tape}
    (checked : tape.validate = .ok ()) (options : EvalOptions) :
    (∀ (history : List (Call α)) (call : Call α),
      (((new tape options).after history).respond call).1 = ((new tape options).respond call).1) ∧
    (∀ (work : Vector α tape.numSlots) (tangents : Array α) (partials : Array (α × α))
        (adjoints : Array α) (call : Call α),
      (respond ⟨Session.holding tape options (numbers options.domainPolicy) Scalar.one work, tangents,
          partials, adjoints⟩ call).1 = ((new tape options).respond call).1) ∧
    (∀ (history : List (Call α)) (inputs buffers filled : List (List α)) (cause : Error),
      (((new tape options).after history).respond (.evaluateInto inputs buffers)).1 =
        .filled (.error cause) filled → filled = buffers) ∧
    (∀ (points : List (List (List α))) (shares : List (List (List (List α) × Nat)))
        (results : List (List (List α))), shares.flatten.Perm points.zipIdx →
      List.Forall₂ (fun point result => oneShot tape (evaluate point) = .ok result) points results →
      evaluateBatch tape shares = .ok results) ∧
    ∀ (inputs : List (List α)) (oinds : List Nat) (shares : List (List (Nat × Nat)))
        (results : List (List (List α))), shares.flatten.Perm oinds.zipIdx →
      List.Forall₂ (fun oind result => oneShot tape (gradient inputs oind) = .ok result) oinds results →
      gradients tape inputs shares = .ok results := by
  have valid := Tape.valid_of_validate checked
  refine ⟨?_, ?_, ?_, ?_, ?_⟩
  · intro history call
    exact respond_eq_new valid options (serves_after_new valid options history) call
  · intro work tangents partials adjoints call
    exact respond_eq_new valid options (.holding work tangents partials adjoints) call
  · intro history inputs buffers filled cause responded
    exact filled_eq_of_error valid options (serves_after_new valid options history) responded
  · intro points shares results spread each
    refine collect_eq_ok (fun point => ?_) spread each
    rcases (refines_evaluate valid point).concludes
      (Session.settles_evaluate valid (numbers _).guarded_any (fun _ => trivial) point) with
      ⟨outcome, -, concludes⟩
    exact ⟨outcome, concludes⟩
  · intro inputs oinds shares results spread each
    refine collect_eq_ok (fun oind => ?_) spread each
    rcases (refines_gradient valid (numbers_computes α _) inputs oind).concludes
      (Session.settles_gradient valid (numbers _).guarded_any (fun _ => trivial) inputs oind) with
      ⟨outcome, -, concludes⟩
    exact ⟨outcome, concludes⟩

/-- A forward sweep that stops at its second instruction and two calls that are refused do not show in the
derivative at three, and two workers find the values at one, two and three in order. -/
theorem doubledSquare_unobservable :
    let strict : Evaluator Float := .new doubledSquare { domainPolicy := .reject }
    let overflowing : Call Float := .forwardAd [[1e200]] [[[1.0]], [[2.0]]]
    doubledSquare.validate = .ok () ∧
    (strict.respond overflowing).1 =
      .derivatives (.error (.evaluation (.domain 1 (.binary .mul)))) ∧
    ((strict.after [overflowing, .evaluate [[1.0], [2.0]], .evaluateInto [[5.0]] []]).respond
      (.reverseAd [[3.0]] [[[1.0]]])).1 = .derivatives (.ok ⟨[[36.0]], [[[24.0]]]⟩) ∧
    Evaluator.evaluateBatch doubledSquare
      [[([[3.0]], 2), ([[1.0]], 0)], [([[2.0]], 1)]] = .ok [[[4.0]], [[16.0]], [[(36.0 : Float)]]] := by
  have unobservable := Evaluator.history_unobservable (α := Float) doubledSquare_validate
    { domainPolicy := .reject }
  refine ⟨doubledSquare_validate, by decide +kernel, ?_, ?_⟩
  · exact (unobservable.1 _ _).trans (by decide +kernel)
  · refine unobservable.2.2.2.1 [[[1.0]], [[2.0]], [[3.0]]] _ _ (by decide +kernel) ?_
    exact .cons (by decide +kernel) (.cons (by decide +kernel) (.cons (by decide +kernel) .nil))

end Autodiff
