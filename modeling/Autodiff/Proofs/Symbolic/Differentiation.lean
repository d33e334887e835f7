import Autodiff.Proofs.Session.ForwardDerivative
import Autodiff.Proofs.Symbolic.Partials

/-!
# Symbolic and numeric derivatives agree

Sweeps over numbers record the partials that the rules give, sweeps over expressions record expressions for
them. Over an ordered field, where both denote the same elements, the results of a symbolic derivative call
therefore have the values that the numeric call computes from the values of its arguments.
-/

namespace Autodiff

attribute [-instance] Scalar.toAdd Scalar.toSub Scalar.toMul Scalar.toDiv Scalar.toNeg

/-! ## What numbers record -/

section Recording

variable {R : Type} [CommRing R] {scalar : Scalar R}

theorem Scalar.Exact.weights_eq (exact : scalar.Exact) (instruction : Instruction) (value : Nat → R) :
    instruction.weights scalar value =
      instruction.weighted scalar.derivativeRules scalar.meaning value := by
  rcases instruction with ⟨_ | op | op, out, fst, snd, literal⟩
  · exact Prod.ext exact.zero exact.zero
  · exact Prod.ext rfl exact.zero
  · rfl

theorem Scalar.Exact.recorded (exact : scalar.Exact) (policy : DomainPolicy) {size : Nat}
    {instructions : List Instruction} (below : ∀ instruction ∈ instructions, instruction.Below size)
    (start : Nat) (value : Nat → R) (before : Record R) :
    (instructions.zipIdx start).foldlM (recordStep (Autodiff.numbers policy)) (slotArray size value, before) =
      .ok (slotArray size (executeAll scalar.meaning instructions value),
        recordAll scalar.derivativeRules scalar.meaning instructions value before) := by
  induction instructions generalizing start value before with
  | nil => rfl
  | cons instruction instructions ih =>
      rw [List.forall_mem_cons] at below
      rw [List.zipIdx_cons, List.foldlM_cons, recordStep_numbers exact.isFinite policy below.1, ok_bind,
        ih below.2, exact.weights_eq]
      rfl

theorem Scalar.Exact.runsTo (exact : scalar.Exact) (policy : DomainPolicy) {tape : Tape}
    (valid : tape.Valid) {point : Seed R} (shaped : Session.Shaped tape.inputs point) :
    tape.RunsTo (Autodiff.numbers policy) point
      (Seed.ofVector tape.outputs fun output => executeAll scalar.meaning tape.instructions
        (stored 0 tape.inputs point) output.slot)
      (recordAll scalar.derivativeRules scalar.meaning tape.instructions
        (stored 0 tape.inputs point) []) := by
  rcases Tape.exists_runsTo_executeAll valid (exact.numbers policy)
    (numbers_interprets exact.isFinite policy) shaped with ⟨record, recorded, runs⟩
  have sameRecord := recorded.symm.trans (exact.recorded policy valid.instructionsBelow 0 _ [])
  rw [Tape.stored_inputs valid shaped]
  exact (Prod.mk.inj (Except.ok.inj sameRecord)).2 ▸ runs

end Recording

/-! ## Values of derivatives -/

section Values

variable {K : Type} [CommSemiring K] {reading : Reading K} {world : World}

def Graph.derivativeValues (graph : Graph) (meaning : Meaning K) (assignment : Handle → List K)
    (found : Derivatives Handle) : Derivatives K :=
  ⟨graph.values meaning assignment found.outputs,
    found.sensitivities.map (graph.values meaning assignment)⟩

theorem Reading.DenotesDerivatives.values_eq {found : Derivatives Handle} {elements : Derivatives K}
    (denotes : reading.DenotesDerivatives world found elements) (exact : reading.Exact world) :
    world.graph.derivativeValues reading.meaning reading.assignment found = elements := by
  have sensitivities : found.sensitivities.map
      (world.graph.values reading.meaning reading.assignment) = elements.sensitivities := by
    rw [← List.forall₂_eq_eq_eq, List.forall₂_map_left_iff]
    exact denotes.sensitivities.imp fun _ _ seedDenotes => seedDenotes.values_eq exact
  rw [Graph.derivativeValues, denotes.outputs.values_eq exact, sensitivities]

end Values

theorem Reading.denotesSeeds_values {K : Type} [Zero K] {world : World} {seeds : List (Seed Handle)}
    {meaning : Meaning K} {assignment : Handle → List K}
    (scalars : ∀ seed ∈ seeds, world.graph.Scalars seed) :
    List.Forall₂ (DenotesSeed ⟨meaning, assignment, .all⟩ world) seeds
      (seeds.map (world.graph.values meaning assignment)) := by
  rw [List.forall₂_map_right_iff, List.forall₂_same]
  exact fun seed member => denotesSeed_values (scalars seed member)

theorem Graph.shaped_seeds {K : Type} [Zero K] (graph : Graph) {blocks : List Block}
    {seeds : List (Seed Handle)} (shaped : ∀ seed ∈ seeds, Session.Shaped blocks seed)
    (meaning : Meaning K) (assignment : Handle → List K) :
    ∀ direction ∈ seeds.map (graph.values meaning assignment), Session.Shaped blocks direction := by
  rw [List.forall_mem_map]
  exact fun seed member => graph.shaped_values (shaped seed member) meaning assignment

namespace Scalar.Ordered

variable {K : Type} [Field K] [LinearOrder K] [IsStrictOrderedRing K] {scalar : Scalar K}
  {tape : Tape} {graph : Graph} {inputs : Seed Handle} {seeds : List (Seed Handle)}

omit [LinearOrder K] [IsStrictOrderedRing K] in
/-- If the results of a symbolic call denote what a numeric call answers with, they have these values. -/
theorem agrees_of_completes (sound : graph.Sound) {assignment : Handle → List K}
    {traced : TracedM (Derivatives Handle)} {plain : GraphM (Derivatives Handle)}
    {call : SessionM K (Derivatives K)} {elements : Derivatives K}
    (completes : Completes ⟨⟨graph, []⟩, sound⟩ traced plain fun world found =>
      (scalar.reading assignment).DenotesDerivatives world found elements)
    (answers : ∀ options : EvalOptions,
      Session.Answers tape options (Autodiff.numbers options.domainPolicy) scalar.one call elements) :
    ∃ (found : Derivatives Handle) (after : Graph), plain.run.run graph = (.ok found, after) ∧
      ((∀ folding ∈ traced.foldings graph, scalar.meaning.Folds folding) → ∀ options : EvalOptions,
        Session.Answers tape options (Autodiff.numbers options.domainPolicy) scalar.one call
          (after.derivativeValues scalar.meaning assignment found)) := by
  rcases completes.exists_run (scalar.reading assignment) with ⟨found, final, ran, isExact, denotes⟩
  refine ⟨found, final.graph, ran, fun exactFoldings options => ?_⟩
  exact denotes.values_eq (isExact exactFoldings) ▸ answers options

variable (ordered : scalar.Ordered) (valid : tape.Valid) (sound : graph.Sound)
  (shaped : Session.Shaped tape.inputs inputs) (scalars : graph.Scalars inputs)
  (seedScalars : ∀ seed ∈ seeds, graph.Scalars seed) (assignment : Handle → List K)
include ordered valid sound shaped scalars seedScalars

theorem forwardSymbolic_agrees (seedsShaped : ∀ seed ∈ seeds, Session.Shaped tape.inputs seed) :
    ∃ (found : Derivatives Handle) (after : Graph),
      (tape.forwardSymbolic inputs seeds : GraphM _).run.run graph = (.ok found, after) ∧
      ((∀ folding ∈ TracedM.foldings (tape.forwardSymbolic inputs seeds) graph,
          scalar.meaning.Folds folding) →
        ∀ options : EvalOptions, Session.Answers tape options
          (Autodiff.numbers options.domainPolicy) scalar.one
          (Session.forwardAd (graph.values scalar.meaning assignment inputs)
            (seeds.map (graph.values scalar.meaning assignment)))
          (after.derivativeValues scalar.meaning assignment found)) := by
  refine agrees_of_completes sound (Reading.completes_forwardSymbolic (Reading.denotesSeeds_values seedScalars)
    (ordered.linear assignment) (ordered.derives assignment) valid.bounded
    (fun instruction _ => Vocabulary.allowsOp_all instruction.op) shaped (Reading.denotesSeed_values scalars)
    seedsShaped) fun options => ?_
  exact (ordered.toExact.numbers options.domainPolicy).computes.forwardAd
    (ordered.toExact.runsTo options.domainPolicy valid (graph.shaped_values shaped scalar.meaning assignment)) valid
    (graph.shaped_seeds seedsShaped scalar.meaning assignment)

theorem reverseSymbolic_agrees (seedsShaped : ∀ seed ∈ seeds, Session.Shaped tape.outputs seed) :
    ∃ (found : Derivatives Handle) (after : Graph),
      (tape.reverseSymbolic inputs seeds : GraphM _).run.run graph = (.ok found, after) ∧
      ((∀ folding ∈ TracedM.foldings (tape.reverseSymbolic inputs seeds) graph,
          scalar.meaning.Folds folding) →
        ∀ options : EvalOptions, Session.Answers tape options
          (Autodiff.numbers options.domainPolicy) scalar.one
          (Session.reverseAd (graph.values scalar.meaning assignment inputs)
            (seeds.map (graph.values scalar.meaning assignment)))
          (after.derivativeValues scalar.meaning assignment found)) := by
  refine agrees_of_completes sound (Reading.completes_reverseSymbolic (Reading.denotesSeeds_values seedScalars)
    (ordered.linear assignment) (ordered.derives assignment) valid.bounded
    (fun instruction _ => Vocabulary.allowsOp_all instruction.op) shaped (Reading.denotesSeed_values scalars)
    seedsShaped) fun options => ?_
  exact (ordered.toExact.numbers options.domainPolicy).computes.reverseAd
    (ordered.toExact.runsTo options.domainPolicy valid (graph.shaped_values shaped scalar.meaning assignment)) valid
    (graph.shaped_seeds seedsShaped scalar.meaning assignment)

end Scalar.Ordered

/-- Symbolic differentiation agrees with numeric differentiation. Take any exact scalars over an ordered
field, a valid tape, a reachable graph and stored 1x1 expressions for the inputs and the seeds. Symbolic forward
and reverse sweeps succeed, and provided that the foldings they make are exact, the outputs and sensitivities that
they return have under every assignment of the symbols the values that every session computes from the values
of the inputs and the seeds. -/
theorem Tape.symbolic_eq_numeric {K : Type} [Field K] [LinearOrder K] [IsStrictOrderedRing K]
    {scalar : Scalar K} (ordered : scalar.Ordered) {tape : Tape} (checked : tape.validate = .ok ())
    {graph : Graph} (reachable : graph.Reachable) {inputs : Seed Handle}
    (shaped : Session.Shaped tape.inputs inputs) (scalars : graph.Scalars inputs)
    {inputSeeds outputSeeds : List (Seed Handle)}
    (inputSeedsShaped : ∀ seed ∈ inputSeeds, Session.Shaped tape.inputs seed ∧ graph.Scalars seed)
    (outputSeedsShaped : ∀ seed ∈ outputSeeds, Session.Shaped tape.outputs seed ∧ graph.Scalars seed) :
    (∃ (found : Derivatives Handle) (after : Graph),
      (tape.forwardSymbolic inputs inputSeeds : GraphM _).run.run graph = (.ok found, after) ∧
      ((∀ folding ∈ TracedM.foldings (tape.forwardSymbolic inputs inputSeeds) graph,
          scalar.meaning.Folds folding) →
        ∀ (assignment : Handle → List K) (options : EvalOptions) (work : Vector K tape.numSlots),
          ((Session.holding tape options (numbers options.domainPolicy) scalar.one work).perform
            (Session.forwardAd (graph.values scalar.meaning assignment inputs)
              (inputSeeds.map (graph.values scalar.meaning assignment)))).1 =
            .ok (after.derivativeValues scalar.meaning assignment found))) ∧
    ∃ (found : Derivatives Handle) (after : Graph),
      (tape.reverseSymbolic inputs outputSeeds : GraphM _).run.run graph = (.ok found, after) ∧
      ((∀ folding ∈ TracedM.foldings (tape.reverseSymbolic inputs outputSeeds) graph,
          scalar.meaning.Folds folding) →
        ∀ (assignment : Handle → List K) (options : EvalOptions) (work : Vector K tape.numSlots),
          ((Session.holding tape options (numbers options.domainPolicy) scalar.one work).perform
            (Session.reverseAd (graph.values scalar.meaning assignment inputs)
              (outputSeeds.map (graph.values scalar.meaning assignment)))).1 =
            .ok (after.derivativeValues scalar.meaning assignment found)) := by
  have valid := valid_of_validate checked
  have sound := reachable.sound
  constructor
  · rcases GraphM.exists_run_forall fun assignment : Handle → List K =>
      ordered.forwardSymbolic_agrees valid sound shaped scalars (fun seed member => (inputSeedsShaped seed member).2)
        assignment (fun seed member => (inputSeedsShaped seed member).1) with
      ⟨found, after, ran, agrees⟩
    refine ⟨found, after, ran, fun exactFoldings assignment options work => ?_⟩
    exact (agrees assignment exactFoldings options).outcome work
  · rcases GraphM.exists_run_forall fun assignment : Handle → List K =>
      ordered.reverseSymbolic_agrees valid sound shaped scalars (fun seed member => (outputSeedsShaped seed member).2)
        assignment (fun seed member => (outputSeedsShaped seed member).1) with
      ⟨found, after, ran, agrees⟩
    refine ⟨found, after, ran, fun exactFoldings assignment options work => ?_⟩
    exact (agrees assignment exactFoldings options).outcome work

/-- A sum that overwrites its first term. -/
def addition : Tape :=
  ⟨[⟨.binary .add, 0, 0, 1, 0⟩], 2, [⟨"a", .scalar, [0]⟩, ⟨"b", .scalar, [1]⟩], [⟨"c", .scalar, [0]⟩]⟩

set_option maxRecDepth 2048 in
/-- The derivatives of the sum of a symbol and zero, in a direction that is another symbol. -/
theorem addition_derivatives :
    (∃ (found : Derivatives Handle) (after : Graph),
      (addition.forwardSymbolic [[⟨3⟩], [.zero]] [[[⟨4⟩], [.zero]]] : GraphM _).run.run
        Graph.symbolPair = (.ok found, after) ∧
      ∀ (assignment : Handle → List ℚ) (options : EvalOptions) (work : Vector ℚ addition.numSlots),
        ((Session.holding addition options (@numbers ℚ (.ofField ℚ) options.domainPolicy) 1 work).perform
          (Session.forwardAd
            (Graph.symbolPair.values (Scalar.ofField ℚ).meaning assignment [[⟨3⟩], [.zero]])
            [Graph.symbolPair.values (Scalar.ofField ℚ).meaning assignment [[⟨4⟩], [.zero]]])).1 =
          .ok (after.derivativeValues (Scalar.ofField ℚ).meaning assignment found)) ∧
    ∃ (found : Derivatives Handle) (after : Graph),
      (addition.reverseSymbolic [[⟨3⟩], [.zero]] [[[⟨4⟩]]] : GraphM _).run.run
        Graph.symbolPair = (.ok found, after) ∧
      ∀ (assignment : Handle → List ℚ) (options : EvalOptions) (work : Vector ℚ addition.numSlots),
        ((Session.holding addition options (@numbers ℚ (.ofField ℚ) options.domainPolicy) 1 work).perform
          (Session.reverseAd
            (Graph.symbolPair.values (Scalar.ofField ℚ).meaning assignment [[⟨3⟩], [.zero]])
            [Graph.symbolPair.values (Scalar.ofField ℚ).meaning assignment [[⟨4⟩]]])).1 =
          .ok (after.derivativeValues (Scalar.ofField ℚ).meaning assignment found) := by
  have validated : addition.validate = .ok () := by
    simp [addition, Tape.validate, Tape.checkInputs, Tape.checkSlotCount, Tape.checkInputSlots,
      Tape.checkInstructions, Tape.checkOutputs, Instruction.spareOperands, Instruction.operands,
      Pattern.nnz, Pattern.scalar]
  rcases Graph.symbolPair_eq with ⟨interned, same⟩
  have inputsFit : Session.Shaped addition.inputs [[⟨3⟩], [Handle.zero]] ∧
      Graph.symbolPair.Scalars [[⟨3⟩], [.zero]] := by
    refine ⟨.cons rfl (.cons rfl .nil), ?_⟩
    rw [same]
    simp [Graph.Scalars, Graph.pattern, Graph.entry, Graph.entry?, Handle.zero]
  have inputSeedFits : Session.Shaped addition.inputs [[⟨4⟩], [Handle.zero]] ∧
      Graph.symbolPair.Scalars [[⟨4⟩], [.zero]] := by
    refine ⟨.cons rfl (.cons rfl .nil), ?_⟩
    rw [same]
    simp [Graph.Scalars, Graph.pattern, Graph.entry, Graph.entry?, Handle.zero]
  have outputSeedFits : Session.Shaped addition.outputs [[(⟨4⟩ : Handle)]] ∧
      Graph.symbolPair.Scalars [[⟨4⟩]] := by
    refine ⟨.cons rfl .nil, ?_⟩
    rw [same]
    simp [Graph.Scalars, Graph.pattern, Graph.entry, Graph.entry?]
  -- One operand of every operation is a symbol, so nothing is folded.
  have forwardUnfolded : TracedM.foldings
      (addition.forwardSymbolic [[⟨3⟩], [.zero]] [[[⟨4⟩], [.zero]]]) Graph.symbolPair = [] := by
    rw [same]
    rfl
  have reverseUnfolded : TracedM.foldings
      (addition.reverseSymbolic [[⟨3⟩], [.zero]] [[[⟨4⟩]]]) Graph.symbolPair = [] := by
    rw [same]
    rfl
  have ordered : (Scalar.ofField ℚ).Ordered := Scalar.ordered_ofField
  rcases Tape.symbolic_eq_numeric ordered validated Graph.reachable_symbolPair
    inputsFit.1 inputsFit.2 (List.forall_mem_singleton.mpr inputSeedFits)
    (List.forall_mem_singleton.mpr outputSeedFits) with
    ⟨⟨found, after, ran, agrees⟩, pulled, afterPull, ranBack, agreesBack⟩
  exact ⟨⟨found, after, ran, agrees (by simp [forwardUnfolded])⟩,
    pulled, afterPull, ranBack, agreesBack (by simp [reverseUnfolded])⟩

end Autodiff
