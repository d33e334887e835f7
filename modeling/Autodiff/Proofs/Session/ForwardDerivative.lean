import Autodiff.Proofs.Session.Runs
import Autodiff.Proofs.Tape.DualNumbers

/-!
# Forward sweeps compute derivatives

Evaluating a rational tape over dual numbers, at a point with a direction attached to it, gives the values of
the outputs with the sensitivities of a forward sweep attached to them. A run over the dual numbers starts
from the inputs alone, so its working array splits into the values and the tangents that the forward sweep
starts from (`spread_dualized`); the run lemma for dual numbers does the rest.
-/

namespace Autodiff

/-! ## Points with directions -/

section Dualized

variable {K : Type} [CommRing K] {blocks : List Block}

/-- The entries of a point with the entries of a direction as their derivatives. -/
def dualized (point direction : Seed K) : Seed (DualNumber K) :=
  List.zipWith (List.zipWith dual) point direction

theorem dualized_ofVector (point direction : BlockEntry blocks → K) :
    dualized (Seed.ofVector blocks point) (Seed.ofVector blocks direction) =
      Seed.ofVector blocks fun entry => dual (point entry) (direction entry) := by
  simp only [dualized, Seed.ofVector, List.ofFn_eq_map, List.zipWith_map, List.zipWith_self]

theorem single_dual (slot : Nat) (value tangent : K) :
    (Pi.single slot (dual value tangent) : Nat → DualNumber K) = fun other =>
      dual ((Pi.single slot value : Nat → K) other) ((Pi.single slot tangent : Nat → K) other) := by
  funext other
  by_cases same : other = slot
  · subst same
    simp only [Pi.single_eq_same]
  · simp only [Pi.single_eq_of_ne same]
    ext <;> simp

theorem spread_dual (entries : List (BlockEntry blocks)) (point direction : BlockEntry blocks → K) :
    spread (entries.map fun entry => (entry.slot, dual (point entry) (direction entry))) =
      fun slot => dual (spread (entries.map fun entry => (entry.slot, point entry)) slot)
        (spread (entries.map fun entry => (entry.slot, direction entry)) slot) := by
  induction entries with
  | nil =>
      funext slot
      ext <;> simp
  | cons entry entries ih =>
      simp only [List.map_cons, spread_cons, ih, single_dual]
      funext slot
      simp only [Pi.add_apply, dual_add]

theorem spread_dualized {point direction : Seed K} (shaped : Session.Shaped blocks point)
    (directionShaped : Session.Shaped blocks direction) :
    spread (seedSlots blocks (dualized point direction)) =
      fun slot => dual (spread (seedSlots blocks point) slot)
        (spread (seedSlots blocks direction) slot) := by
  rw [← Seed.ofVector_vector shaped, ← Seed.ofVector_vector directionShaped, dualized_ofVector]
  simp only [Seed.seedSlots_ofVector]
  exact spread_dual _ _ _

theorem shaped_dualized {point direction : Seed K} (shaped : Session.Shaped blocks point)
    (directionShaped : Session.Shaped blocks direction) :
    Session.Shaped blocks (dualized point direction) := by
  rw [← Seed.ofVector_vector shaped, ← Seed.ofVector_vector directionShaped, dualized_ofVector]
  exact Seed.shaped_ofVector _

end Dualized

/-! ## Runs from the inputs alone -/

namespace Tape

section Loaded

variable {α : Type} [CommSemiring α] {algebra : Algebra (Except Error) α} {meaning : Meaning α}
  {tape : Tape} {point : List (List α)}

/-- Over an algebra with a meaning, a valid tape runs at every point of the right shape. -/
theorem exists_runsTo_executeAll (valid : tape.Valid) (exact : algebra.Exact)
    (interprets : algebra.Interprets meaning) (shaped : Session.Shaped tape.inputs point) :
    ∃ record, tape.recorded algebra
        (slotArray tape.numSlots (spread (seedSlots tape.inputs point))) =
        .ok (slotArray tape.numSlots (executeAll meaning tape.instructions
          (spread (seedSlots tape.inputs point))), record) ∧
      tape.RunsTo algebra point (Seed.ofVector tape.outputs fun output =>
        executeAll meaning tape.instructions (spread (seedSlots tape.inputs point)) output.slot)
        record := by
  let value := spread (seedSlots tape.inputs point)
  let zeros : Vector α tape.numSlots := .replicate tape.numSlots 0
  have loaded : Session.place (seedSlots tape.inputs point) zeros.toArray =
      slotArray tape.numSlots value := by
    refine (Session.place_replicate valid.inputsBelow 0 point).trans ?_
    rw [stored_inputs valid shaped]
  have ran : tape.primal algebra (slotArray tape.numSlots value) =
      .ok (slotArray tape.numSlots (executeAll meaning tape.instructions value)) :=
    interprets.evaluates.primal value valid.instructionsBelow 0
  have evaluated : ((Session.holding tape {} algebra 0 zeros).perform
      (Session.evaluate point)).1 = .ok (tape.outputs.map fun block =>
        block.slots.map (executeAll meaning tape.instructions value)) :=
    (Session.evaluate_eq_ok valid.inputsBelow).mpr
      ⟨shaped, _, loaded ▸ ran, readBlocks_slotArray valid.outputsBelow⟩
  rw [Seed.ofVector_slots] at evaluated
  rcases exists_runsTo valid exact evaluated with ⟨record, runs⟩
  refine ⟨record, ?_, runs⟩
  rcases runs.ran zeros with ⟨final, _, finalRan, recorded, _⟩
  rw [loaded] at finalRan recorded
  cases Except.ok.inj (ran.symm.trans finalRan)
  exact recorded

end Loaded

/-! ## Rational tapes -/

/-- Nothing that the tape divides by, run from the inputs on, evaluates to zero at the point. -/
def DivisorsNonzero {α : Type} [Zero α] (tape : Tape) (algebra : Algebra (Except Error) α)
    (point : List (List α)) : Prop :=
  ∀ before instruction after, tape.instructions = before ++ instruction :: after →
    ∀ loaded work, scatter algebra tape.numSlots tape.inputs point = .ok loaded →
      ({ tape with instructions := before } : Tape).primal algebra loaded = .ok work →
        ∀ divisor ∈ instruction.divisor?, work[divisor]? ≠ some 0

variable {K : Type} [Field K] {scalar : Scalar K} {duals : Scalar (DualNumber K)} {tape : Tape}
  {point : List (List K)}

/-- The divisors are what the instructions before compute. -/
theorem divisorsNonzero_iff (valid : tape.Valid) (exact : scalar.Exact)
    (shaped : Session.Shaped tape.inputs point) {policy : DomainPolicy} :
    tape.DivisorsNonzero (numbers policy) point ↔
      NonzeroDivisors scalar.meaning tape.instructions (spread (seedSlots tape.inputs point)) := by
  have scattered := scatter_inputs valid (exact.numbers policy) shaped
  rw [nonzeroDivisors_iff]
  refine forall_congr' fun before => forall_congr' fun instruction => forall_congr' fun after =>
    forall_congr' fun split => ?_
  have below := valid.instructionsBelow
  rw [split, List.forall_mem_append, List.forall_mem_cons] at below
  have ran : ({ tape with instructions := before } : Tape).primal (numbers policy)
      (slotArray tape.numSlots (spread (seedSlots tape.inputs point))) = _ :=
    (numbers_interprets exact.isFinite policy).evaluates.primal _ below.1 0
  have reads : ∀ divisor ∈ instruction.divisor?, (slotArray tape.numSlots
      (executeAll scalar.meaning before (spread (seedSlots tape.inputs point))))[divisor]? =
        some (executeAll scalar.meaning before (spread (seedSlots tape.inputs point)) divisor) :=
    fun divisor divides => getElem?_slotArray
      (below.2.1.operands divisor (instruction.divisor_mem_operands divides))
  constructor
  · intro nonzero divisor divides isZero
    refine nonzero _ _ scattered ran divisor divides ?_
    rw [reads divisor divides, isZero]
  · intro nonzero loaded work isLoaded isRun divisor divides isZero
    cases Except.ok.inj (scattered.symm.trans isLoaded)
    cases Except.ok.inj (ran.symm.trans isRun)
    rw [reads divisor divides] at isZero
    exact nonzero divisor divides (Option.some.inj isZero)

/-- Forward sweeps compute the true derivative on rational tapes. Take any field, any exact scalars over
it and over its dual numbers, a valid tape of rational operations, a point where nothing that it divides by
is zero, and any directions. Every session then evaluates the point and sweeps the directions forward, and
evaluating over the dual numbers, at the point with a direction attached, gives every entry of the outputs
with its sensitivity attached. -/
theorem forwardAd_eq_dual (lifts : scalar.Lifts duals) (validated : tape.validate = .ok ())
    (rational : ∀ instruction ∈ tape.instructions, instruction.op.isRational)
    (options dualOptions : EvalOptions) (shaped : Session.Shaped tape.inputs point)
    (nonzero : tape.DivisorsNonzero (numbers options.domainPolicy) point) {seeds : List (Seed K)}
    (seedsShaped : ∀ seed ∈ seeds, Session.Shaped tape.inputs seed)
    (work : Vector K tape.numSlots) (dualWork : Vector (DualNumber K) tape.numSlots) :
    let session := Session.holding tape options (numbers options.domainPolicy) scalar.one work
    let dualSession :=
      Session.holding tape dualOptions (numbers dualOptions.domainPolicy) duals.one dualWork
    ∃ values sensitivities,
      (session.perform (Session.evaluate point)).1 = .ok values ∧
      (session.perform (Session.forwardAd point seeds)).1 = .ok ⟨values, sensitivities⟩ ∧
      List.Forall₂ (fun seed sensitivity => Session.Shaped tape.outputs sensitivity ∧
        (dualSession.perform (Session.evaluate (dualized point seed))).1 =
          .ok (dualized values sensitivity)) seeds sensitivities := by
  intro session dualSession
  have valid := valid_of_validate validated
  have exact := lifts.exact.numbers options.domainPolicy
  have dualExact := lifts.dualExact.numbers dualOptions.domainPolicy
  rcases exists_runsTo_executeAll valid exact
    (numbers_interprets lifts.exact.isFinite options.domainPolicy) shaped with
    ⟨record, recorded, runs⟩
  rcases lifts.run options.domainPolicy valid.instructionsBelow rational
    ((divisorsNonzero_iff valid lifts.exact shaped).mp nonzero) 0 [] with
    ⟨sameRecord, sameRecorded, lifted⟩
  -- The two records are one, so the derivatives that it pushes forward are those of the sweep.
  cases Except.ok.inj (recorded.symm.trans sameRecorded)
  refine ⟨_, _, (runs.evaluate valid).outcome work,
    (runs.forwardAd valid exact seedsShaped).outcome work, ?_⟩
  rw [List.forall₂_map_right_iff, List.forall₂_same]
  intro seed member
  refine ⟨Seed.shaped_ofVector _, ?_⟩
  have seedShaped := seedsShaped seed member
  rcases exists_runsTo_executeAll valid dualExact
    (numbers_interprets lifts.dualExact.isFinite dualOptions.domainPolicy)
    (shaped_dualized shaped seedShaped) with ⟨_, _, dualRuns⟩
  refine ((dualRuns.evaluate valid).outcome dualWork).trans ?_
  have split : executeAll duals.meaning tape.instructions
      (spread (seedSlots tape.inputs (dualized point seed))) = fun slot =>
        dual (executeAll scalar.meaning tape.instructions (spread (seedSlots tape.inputs point)) slot)
          (record.pushed (spread (seedSlots tape.inputs seed)) slot) := by
    rw [spread_dualized shaped seedShaped]
    exact lifted (spread (seedSlots tape.inputs seed))
  rw [split, dualized_ofVector, ← funext (pushed_seed valid (runs.records.below valid) seedShaped)]

end Tape

/-- A tape with every rational operation that overwrites its second input. -/
def quotients : Tape :=
  ⟨[⟨.const, 2, unusedOperand, unusedOperand, 1⟩, ⟨.unary .sq, 3, 0, unusedOperand, 0⟩,
      ⟨.binary .sub, 3, 3, 2, 0⟩, ⟨.binary .div, 3, 3, 1, 0⟩,
      ⟨.unary .recip, 2, 0, unusedOperand, 0⟩, ⟨.binary .add, 3, 2, 3, 0⟩,
      ⟨.unary .neg, 3, 3, unusedOperand, 0⟩, ⟨.binary .mul, 1, 3, 1, 0⟩], 4,
    [⟨"x", ⟨2, [[0, 1]]⟩, [0, 1]⟩], [⟨"y", ⟨2, [[0, 1]]⟩, [3, 1]⟩]⟩

/-- Derivatives of the quotients over the rational numbers. -/
theorem quotients_derivative :
    let scalar : Scalar ℚ := .ofRing (fun left right => left * right⁻¹) fun _ => 1
    let duals : Scalar (DualNumber ℚ) := .ofRing (fun left right => left * right⁻¹) fun _ => 1
    ∀ (options : EvalOptions) (work : Vector ℚ quotients.numSlots)
      (dualWork : Vector (DualNumber ℚ) quotients.numSlots),
      ∃ values sensitivity,
        ((Session.holding quotients options (numbers options.domainPolicy) scalar.one work).perform
          (Session.forwardAd [[2, 3]] [[[5, 7]]])).1 = .ok ⟨values, [sensitivity]⟩ ∧
        ((Session.holding quotients options (numbers options.domainPolicy) duals.one
          dualWork).perform (Session.evaluate [[dual 2 5, dual 3 7]])).1 =
            .ok (dualized values sensitivity) := by
  intro scalar duals options work dualWork
  have validated : quotients.validate = .ok () := by
    simp [quotients, Tape.validate, Tape.checkInputs, Tape.checkSlotCount, Tape.checkInputSlots,
      Tape.checkInstructions, Tape.checkOutputs, Instruction.spareOperands, Instruction.operands,
      Pattern.nnz]
  have lifts : scalar.Lifts duals := Scalar.lifts_ofRing fun _ => 1
  have shaped : Session.Shaped quotients.inputs [[(2 : ℚ), 3]] := .cons rfl .nil
  have seedShaped : Session.Shaped quotients.inputs [[(5 : ℚ), 7]] := .cons rfl .nil
  have nonzero : quotients.DivisorsNonzero (numbers options.domainPolicy) [[(2 : ℚ), 3]] := by
    rw [Tape.divisorsNonzero_iff (Tape.valid_of_validate validated) lifts.exact shaped]
    simp [quotients, NonzeroDivisors, Instruction.divisor?, Instruction.execute, seedSlots]
  rcases Tape.forwardAd_eq_dual lifts validated (by decide) options options shaped nonzero
    (List.forall_mem_singleton.mpr seedShaped) work dualWork with
    ⟨values, sensitivities, _, swept, attached⟩
  rcases List.forall₂_cons_left_iff.mp attached with ⟨sensitivity, _, ⟨_, evaluated⟩, ended, rfl⟩
  cases ended
  exact ⟨values, sensitivity, swept, evaluated⟩

end Autodiff
