import Autodiff.Proofs.Session.Answers
import Autodiff.Proofs.Session.Composition
import Autodiff.Proofs.Session.LinkedTapes
import Autodiff.Proofs.Tape.Safety

/-!
# Calls that settle

A call on a session settles if it ends in one way whatever the working array holds: with a value that
it may return or with a failure that it may have, and it leaves a session of the same kind behind. This
is shown for every call on a valid tape. That the outcome stays within the allowed ones is the safety
of the call, and that there is only one outcome means that no earlier call can be observed.
-/

namespace Autodiff

/-- A failure that a call reports to its caller. -/
def Error.IsEvaluation (cause : Error) : Prop :=
  ∃ reason, cause = .evaluation reason

theorem Error.isEvaluation (reason : EvaluationError) : (Error.evaluation reason).IsEvaluation :=
  ⟨reason, rfl⟩

/-- A failure of evaluation: the point does not fit the inputs, or an instruction leaves its domain. -/
inductive Error.IsRejection : Error → Prop where
  | inputCount (expected found : Nat) : IsRejection (.evaluation (.inputCount expected found))
  | inputLength (input expected found : Nat) :
      IsRejection (.evaluation (.inputLength input expected found))
  | domain (instruction : Nat) (op : Opcode) : IsRejection (.evaluation (.domain instruction op))

theorem Error.IsRejection.isEvaluation {cause : Error} (rejection : cause.IsRejection) :
    cause.IsEvaluation := by
  cases rejection <;> exact Error.isEvaluation _

namespace Session

variable {α β γ : Type} (tape : Tape) (options : EvalOptions) (algebra : Algebra (Except Error) α)
  (one : α) (fails : Error → Prop)

/-- The call has the outcome whatever the working array holds, and keeps everything else of the session. -/
def Has (call : SessionM α β) (outcome : Except Error β) : Prop :=
  ∀ work : Vector α tape.numSlots, ∃ after : Vector α tape.numSlots,
    (holding tape options algebra one work).perform call = (outcome, holding tape options algebra one after)

/-- The call has one outcome, of an allowed kind. -/
def Settles (returns : β → Prop) (call : SessionM α β) : Prop :=
  ∃ outcome, Ends fails returns outcome ∧ Has tape options algebra one call outcome

variable {tape options algebra one fails}

theorem Has.bind {first : SessionM α β} {next : β → SessionM α γ} {computed : Except Error β}
    (head : Has tape options algebra one first computed) (results : β → Except Error γ)
    (tail : ∀ value, computed = .ok value → Has tape options algebra one (next value) (results value)) :
    Has tape options algebra one (first >>= next) (computed >>= results) := by
  intro work
  rcases head work with ⟨between, performed⟩
  rw [perform_bind, performed]
  cases computed with
  | error cause => exact ⟨between, rfl⟩
  | ok value => exact tail value rfl between

theorem Has.compositional : Compositional (SessionM α) (Except Error) (Has tape options algebra one) where
  pure _ work := ⟨work, rfl⟩
  throw _ work := ⟨work, rfl⟩
  lift _ work := ⟨work, perform_lift ..⟩
  bind head tail := head.bind _ fun value _ => tail value

namespace Settles

variable {returns : β → Prop}

theorem pure {value : β} (holds : returns value) :
    Settles tape options algebra one fails returns (pure value) :=
  ⟨.ok value, holds, fun work => ⟨work, rfl⟩⟩

theorem throw_bind {cause : Error} (kind : fails cause) (next : γ → SessionM α β) :
    Settles tape options algebra one fails returns (MonadExcept.throw cause >>= next) :=
  ⟨.error cause, kind, fun work => ⟨work, rfl⟩⟩

theorem lift {computed : Except Error β} (ends : Ends fails returns computed) :
    Settles tape options algebra one fails returns (liftM computed) :=
  ⟨computed, ends, fun work => ⟨work, perform_lift ..⟩⟩

theorem bind {later : γ → Prop} {first : SessionM α β} {next : β → SessionM α γ}
    (head : Settles tape options algebra one fails returns first)
    (tail : ∀ value, returns value → Settles tape options algebra one fails later (next value)) :
    Settles tape options algebra one fails later (first >>= next) := by
  rcases head with ⟨cause | value, ends, has⟩
  · exact ⟨.error cause, ends, has.bind (fun _ => .error cause) nofun⟩
  · rcases tail value ends with ⟨outcome, nextEnds, nextHas⟩
    refine ⟨outcome, nextEnds, has.bind (fun _ => outcome) ?_⟩
    rintro _ ⟨⟩
    exact nextHas

/-- A call may look at its session, as long as it does not look at the working array. -/
theorem get_bind {next : Session α → SessionM α β}
    (blind : ∀ work : Vector α tape.numSlots,
      next (holding tape options algebra one work) = next (fresh algebra one tape options))
    (settles : Settles tape options algebra one fails returns
      (next (fresh algebra one tape options))) :
    Settles tape options algebra one fails returns (get >>= next) := by
  rcases settles with ⟨outcome, ends, performed⟩
  refine ⟨outcome, ends, fun work => ?_⟩
  rw [perform_bind, perform_get]
  dsimp only
  rw [blind work]
  exact performed work

theorem mono {weaker : β → Prop} {call : SessionM α β}
    (settles : Settles tape options algebra one fails returns call)
    (implies : ∀ value, returns value → weaker value) :
    Settles tape options algebra one fails weaker call := by
  rcases settles with ⟨outcome, ends, performed⟩
  exact ⟨outcome, ends.mono (fun _ => id) implies, performed⟩

theorem mapM {property : γ → Prop} {run : β → SessionM α γ} {elements : List β}
    (each : ∀ element ∈ elements, Settles tape options algebra one fails property (run element)) :
    Settles tape options algebra one fails (fun results => ∀ result ∈ results, property result)
      (elements.mapM run) := by
  induction elements with
  | nil => exact .pure (by simp)
  | cons element elements ih =>
      rw [List.forall_mem_cons] at each
      rw [List.mapM_cons]
      refine each.1.bind fun _ head => (ih each.2).bind fun _ tail => .pure ?_
      exact List.forall_mem_cons.mpr ⟨head, tail⟩

theorem packed {property : Seed α → Prop} {sweep : List (Seed α) → SessionM α (Derivatives α)}
    (each : ∀ piece, Settles tape options algebra one fails
      (fun result => ∀ found ∈ result.sensitivities, property found) (sweep piece))
    (rest : Nat) (seeds : List (Seed α)) :
    Settles tape options algebra one fails (fun found => ∀ seed ∈ found, property seed)
      (Session.packed sweep rest seeds) := by
  refine (mapM fun piece _ => each piece).bind fun results hold => .pure ?_
  intro found member
  rcases List.mem_flatMap.mp member with ⟨result, isResult, isFound⟩
  exact hold result isResult found isFound

theorem ends_checkPoint (rejected : ∀ cause : Error, cause.IsRejection → fails cause)
    (blocks : List Block) (point : List (List α)) :
    Ends fails (fun _ => True) (checkPoint blocks point) := by
  unfold checkPoint
  split
  · exact rejected _ (.inputCount ..)
  · apply Ends.forM
    intro numbered _
    unfold checkBlock
    split
    · trivial
    · exact rejected _ (.inputLength ..)

/-- A sweep on loaded inputs settles if it keeps the size of the array and its result depends on the
inputs only. -/
theorem load_onWork (valid : tape.Valid) (reported : ∀ reason, fails (.evaluation reason))
    {run : Session α → Except Error (Array α × β)}
    (ends : ∀ work : Array α, work.size = tape.numSlots →
      Ends fails (fun result => result.1.size = tape.numSlots ∧ returns result.2)
        (run ⟨tape, options, algebra, one, work⟩))
    (alike : ∀ first second, Tape.LinkedBy.SameInputs tape tape first second →
      Prod.snd <$> run ⟨tape, options, algebra, one, first⟩ =
        Prod.snd <$> run ⟨tape, options, algebra, one, second⟩) (point : List (List α)) :
    Settles tape options algebra one fails returns (load point >>= fun _ => onWork run) := by
  rcases valid.linked with ⟨_, _, linked⟩
  have fits (work : Vector α tape.numSlots) : (holding tape options algebra one work).InputsFit :=
    linked.inputsFit_first options algebra one work
  cases checked : checkPoint tape.inputs point with
  | error cause =>
      refine ⟨.error cause, ?_, fun work => ?_⟩
      · have rejected (cause : Error) (rejection : cause.IsRejection) : fails cause := by
          rcases rejection.isEvaluation with ⟨reason, rfl⟩
          exact reported reason
        have ended := ends_checkPoint rejected tape.inputs point
        rwa [checked] at ended
      · rcases perform_load _ (fits work) point with ⟨loaded, sized, performed, -⟩
        refine ⟨⟨loaded, sized.trans (by simp [holding])⟩, ?_⟩
        rw [perform_bind, performed]
        simp only [holding, checked]
  | ok _ =>
      have shaped := checkPoint_eq_ok.mp checked
      -- the outcome on a new array stands for all others
      let start : Vector α tape.numSlots := Vector.replicate tape.numSlots algebra.zero
      refine ⟨Prod.snd <$> run ⟨tape, options, algebra, one,
        place (seedSlots tape.inputs point) start.toArray⟩, ?_, fun work => ?_⟩
      · have ended := ends (place (seedSlots tape.inputs point) start.toArray) (by simp)
        rw [map_eq_pure_bind]
        exact ended.bind fun result holds => holds.2
      · have sized : (place (seedSlots tape.inputs point) work.toArray).size = tape.numSlots := by simp
        have same := alike _ _ (linked.sameInputs_place work start shaped)
        have ended := ends _ sized
        rcases perform_load _ (fits work) point with ⟨loaded, -, performed, placed⟩
        rw [placed checked] at performed
        rw [← same, perform_bind, performed]
        simp only [holding, checked, onWork, perform_bind, perform_get, perform_lift]
        cases ran : run ⟨tape, options, algebra, one, place (seedSlots tape.inputs point) work.toArray⟩ with
        | error cause => exact ⟨⟨_, sized⟩, rfl⟩
        | ok result =>
            rw [ran] at ended
            exact ⟨⟨result.1, ended.1⟩, rfl⟩

end Settles

/-! ## Shapes -/

section Shapes

variable (reported : ∀ reason, fails (.evaluation reason))

include reported

theorem ends_checkSeed (blocks : List Block) (direction : Nat) (seed : Seed α) :
    Ends fails (fun _ => True) (checkSeed blocks direction seed) := by
  unfold checkSeed
  split
  · exact reported _
  · apply Ends.forM
    intro numbered _
    dsimp only
    split
    · trivial
    · exact reported _

theorem ends_checkSeeds (blocks : List Block) (seeds : List (Seed α)) :
    Ends fails (fun _ => True) (checkSeeds blocks seeds) :=
  Ends.forM fun numbered _ => ends_checkSeed reported blocks numbered.2 numbered.1

theorem ends_block (tape : Tape) (side : Side) (index : Nat) :
    Ends fails (fun block => (tape.blocks side)[index]? = some block) (tape.block side index) := by
  unfold Tape.block
  split
  next block found => exact found
  next => exact reported _

end Shapes

theorem Shaped.ends_seedBlock {blocks : List Block} {seed : Seed α} (shaped : Shaped blocks seed)
    {index : Nat} {block : Block} (found : blocks[index]? = some block) :
    Ends fails (fun _ => True) (seed.block index) := by
  rcases forall₂_getElem? shaped found with ⟨entries, isEntries, -⟩
  simp only [Seed.block, isEntries]
  trivial

theorem Shaped.ends_entry {blocks : List Block} {seed : Seed α} (shaped : Shaped blocks seed)
    {index number : Nat} {block : Block} (found : blocks[index]? = some block)
    (inside : number < block.slots.length) :
    Ends fails (fun _ => True) (seed.entry index number) := by
  rcases forall₂_getElem? shaped found with ⟨entries, isEntries, length⟩
  have isEntry : entries[number]? = some entries[number] :=
    List.getElem?_eq_getElem (by omega)
  simp only [Seed.entry, isEntries, Option.bind_some, isEntry]
  trivial

/-! ## Calls -/

section Calls

variable (valid : tape.Valid) (guarded : algebra.Guarded fails)
  (reported : ∀ reason, fails (.evaluation reason))

include valid guarded reported

theorem settles_evaluate (point : List (List α)) :
    Settles tape options algebra one fails (Shaped tape.outputs) (evaluate point) := by
  rcases valid.linked with ⟨_, _, linked⟩
  refine .load_onWork valid reported (fun work sized => ?_) (fun first second same => ?_) point
  · refine (valid.bounded.ends_primal guarded sized).bind fun final resized => ?_
    exact (ends_readBlocks valid.outputsBelow resized).bind fun outputs shaped => ⟨resized, shaped⟩
  · simpa using linked.primal_eq algebra same

theorem settles_forwardAd (point : List (List α)) (seeds : List (Seed α)) :
    Settles tape options algebra one fails
      (fun result => ∀ found ∈ result.sensitivities, Shaped tape.outputs found)
      (forwardAd point seeds) := by
  rcases valid.linked with ⟨_, _, linked⟩
  refine .get_bind (fun _ => rfl) ((Settles.lift (ends_checkSeeds reported _ _)).bind fun _ _ => ?_)
  refine .load_onWork valid reported (fun work sized => ?_) (fun first second same => ?_) point
  · exact (valid.bounded.ends_forward guarded sized seeds).mono (fun _ => id)
      fun _ holds => ⟨holds.1, holds.2.2⟩
  · exact linked.forward_eq algebra same seeds

theorem settles_reverseAd (point : List (List α)) (seeds : List (Seed α)) :
    Settles tape options algebra one fails
      (fun result => ∀ found ∈ result.sensitivities, Shaped tape.inputs found)
      (reverseAd point seeds) := by
  rcases valid.linked with ⟨_, _, linked⟩
  refine .get_bind (fun _ => rfl) ((Settles.lift (ends_checkSeeds reported _ _)).bind fun _ _ => ?_)
  refine .load_onWork valid reported (fun work sized => ?_) (fun first second same => ?_) point
  · exact (valid.bounded.ends_reverse guarded sized seeds).mono (fun _ => id)
      fun _ holds => ⟨holds.1, holds.2.2⟩
  · exact linked.reverse_eq algebra same seeds

theorem settles_gradient (point : List (List α)) (oind : Nat) :
    Settles tape options algebra one fails (fun _ => True) (gradient point oind) := by
  refine .get_bind (fun _ => rfl) ((Settles.lift (ends_block reported tape .output oind)).bind ?_)
  intro output _
  split
  · exact .throw_bind (reported _) _
  · exact (settles_reverseAd valid guarded reported _ _).bind fun _ _ => .pure trivial

theorem settles_jacobianForward (point : List (List α)) (iind oind : Nat) :
    Settles tape options algebra one fails (fun _ => True) (jacobianForward point iind oind) := by
  refine .get_bind (fun _ => rfl) ((Settles.lift (ends_block reported tape .input iind)).bind ?_)
  intro input _
  refine (Settles.lift (ends_block reported tape .output oind)).bind fun output found => ?_
  refine (Settles.packed (settles_forwardAd valid guarded reported point) _ _).bind ?_
  intro columns shaped
  refine (Settles.mapM fun row isRow => Settles.mapM fun column isColumn =>
    .lift ((shaped column isColumn).ends_entry found (List.mem_range.mp isRow))).mono ?_
  exact fun _ _ => trivial

theorem settles_jacobianReverse (point : List (List α)) (iind oind : Nat) :
    Settles tape options algebra one fails (fun _ => True) (jacobianReverse point iind oind) := by
  refine .get_bind (fun _ => rfl) ((Settles.lift (ends_block reported tape .input iind)).bind ?_)
  intro input found
  refine (Settles.lift (ends_block reported tape .output oind)).bind fun output _ => ?_
  refine (Settles.packed (settles_reverseAd valid guarded reported point) _ _).bind ?_
  intro rows shaped
  refine (Settles.mapM fun row isRow => .lift ((shaped row isRow).ends_seedBlock found)).mono ?_
  exact fun _ _ => trivial

theorem settles_jacobian (point : List (List α)) (iind oind : Nat) :
    Settles tape options algebra one fails (fun _ => True) (jacobian point iind oind) := by
  refine .get_bind (fun _ => rfl) ((Settles.lift (ends_block reported tape .input iind)).bind ?_)
  intro input _
  refine (Settles.lift (ends_block reported tape .output oind)).bind fun output _ => ?_
  split
  · exact settles_jacobianForward valid guarded reported point iind oind
  · exact settles_jacobianReverse valid guarded reported point iind oind

end Calls

/-- Sparse Jacobians settle too, though not always with a failure that is reported. -/
theorem settles_sparseJacobian (valid : tape.Valid) (point : List (List α)) (iind oind : Nat) :
    Settles tape options algebra one (fun _ => True) (fun _ => True)
      (sparseJacobian point iind oind) := by
  have forward (seeds : List (Seed α)) : Settles tape options algebra one (fun _ => True) _ _ :=
    settles_forwardAd valid algebra.guarded_any (fun _ => trivial) point seeds
  have reverse (seeds : List (Seed α)) : Settles tape options algebra one (fun _ => True) _ _ :=
    settles_reverseAd valid algebra.guarded_any (fun _ => trivial) point seeds
  choose forwards _ forwardsHave using forward
  choose reverses _ reversesHave using reverse
  have has := Has.compositional.sparseJacobianBy (fresh algebra one tape options) forwardsHave reversesHave iind oind
  exact .get_bind (fun _ => rfl) ⟨_, .any _, has⟩

end Session

end Autodiff
