import Autodiff.Proofs.Graph.Bookkeeping
import Autodiff.Proofs.Lowering.BuiltTapes
import Autodiff.Proofs.Session.SecondDerivatives
import Autodiff.Proofs.Symbolic.Jacobian
import Autodiff.Proofs.Symbolic.Polynomials

/-!
# Expressions for Hessians

The gradient of an output entry is a column of expressions over the symbols of the inputs. It is lowered to a
second tape, and the Jacobian of that tape is the Hessian. Both steps are read over the dual numbers: the second
tape computes there what the gradient denotes, so its sensitivities are the derivative parts of the sensitivities
of the first tape, which are mixed second derivatives (`completes_hessianExpr`).
-/

namespace Autodiff

open TrivSqZeroExt

/-! ## Gradients -/

theorem Pattern.positions_full_one (length : Nat) :
    (full length 1).positions = (List.range length).map fun row => (row, 0) := by
  simp [positions, full]

theorem Pattern.column_eq {length : Nat} (fits : length ≤ maxBuffer) : column length = .ok (full length 1) := by
  have pointers : requireBuffer 2 = .ok () := rfl
  have rows : requireBuffer (length * 1) = .ok () := if_pos (by simpa using fits)
  rw [column, dense, pointers, ok_bind, rows]
  rfl

/-- Pulling back the unit direction of an output entry gives the sensitivities of this entry. -/
theorem Tape.pulledSeed_unitSeed {K : Type} [CommSemiring K] {tape : Tape} {record : Record K} (valid : tape.Valid)
    (records : tape.Records record) (output : BlockEntry tape.outputs) :
    (Arithmetic.linear K).pulledSeed tape record (unitSeed 0 1 tape.outputs output.1 [output.2.val]) =
      Seed.ofVector tape.inputs (tape.sensitivity record output) := by
  rw [pulledSeed_eq valid records (Seed.shaped_unitSeed ..), Seed.unitSeed_eq, Seed.vector_ofVector,
    Matrix.mulVec_single_one]
  rfl

namespace Reading

section Gradients

variable {K : Type} [CommSemiring K] {reading : Reading K} {rules : DerivativeRules K} {world : World}
  {tape : Tape}

/-- The gradient of an output entry is a full column, and its entries are the sensitivities of this entry to the
entries of the input block. -/
theorem completes_gradientColumn (linear : reading.Linear) (derives : reading.Derives rules)
    (isOne : reading.meaning.literal 1 = 1) (valid : tape.Valid)
    (allowed : ∀ instruction ∈ tape.instructions, reading.vocabulary.AllowsOp instruction.op)
    {inputs : List Handle} (supplies : world.graph.Supplies tape.inputs inputs)
    (spelled : ∀ input ∈ inputs, world.graph.Spelled reading.vocabulary input)
    (iind : Fin tape.inputs.length) {output : BlockEntry tape.outputs} (isFirst : output.2.val = 0)
    (fits : (tape.inputs.get iind).slots.length ≤ maxBuffer) :
    Completes world (tape.gradientColumn inputs iind output.1) (tape.gradientColumn inputs iind output.1)
      fun later handle => reading.Shows later handle ((tape.inputs.get iind).slots.length, 1)
        (fun row column => (row, column) ∈ (Pattern.full (tape.inputs.get iind).slots.length 1).positions)
        fun row _ => blockEntry (tape.sensitivity (recordAll rules reading.meaning tape.instructions
          (stored 0 tape.inputs
            (inputs.map (world.graph.storedValues reading.meaning reading.assignment))) []))
          iind output.1 0 row := by
  have records := Tape.records_recordAll rules reading.meaning tape (stored 0 tape.inputs
    (inputs.map (world.graph.storedValues reading.meaning reading.assignment)))
  apply (succeeds_inputEntries supplies spelled).completes_bind
  intro first entries growsFirst entriesDenote
  have shaped := entriesDenote.shaped_of_entries (supplies.shaped reading.meaning reading.assignment)
  have seedDenotes : reading.DenotesSeed first (unitSeed .zero .one tape.outputs output.1 [0])
      (unitSeed 0 1 tape.outputs output.1 [output.2.val]) :=
    isFirst ▸ denotesSeed_unitSeed (denotes_zero linear.toLawful first) (isOne ▸ denotes_one first) ..
  apply (completes_reverseSymbolic (.cons seedDenotes .nil) linear derives valid.bounded allowed shaped entriesDenote
    (by simpa using Seed.shaped_unitSeed ..)).bind
  intro second found growsSecond foundDenotes
  rcases List.forall₂_cons_right_iff.mp foundDenotes.sensitivities with ⟨seed, rest, pulled, _, isSeed⟩
  rw [Tape.pulledSeed_unitSeed valid records] at pulled
  rcases forall₂_getElem? pulled.flip (Seed.getElem?_ofVector _ iind) with ⟨gradient, isGradient, gradientDenotes⟩
  have sameLength : gradient.length = (tape.inputs.get iind).slots.length := by
    simpa using gradientDenotes.length_eq
  have isBlock : Seed.block (found.sensitivities.headD []) iind = .ok gradient := by
    rw [isSeed, List.headD_cons, Seed.block, isGradient]
  apply Completes.liftExcept_bind isBlock
  apply Completes.liftExcept_bind (Pattern.column_eq (sameLength ▸ fits))
  rw [sameLength]
  have wellFormed := Pattern.wellFormed_full (tape.inputs.get iind).slots.length 1
  have counted : gradient.length = (Pattern.full (tape.inputs.get iind).slots.length 1).nnz := by
    simp [← Pattern.length_positions, Pattern.positions_full_one, sameLength]
  apply (succeeds_assemble wellFormed gradientDenotes counted (.inr fits)).mono
  intro later handle _ shown
  rw [Pattern.shape_full] at shown
  apply shown.congr (fun _ _ => Iff.rfl)
  intro row column rowInside columnInside
  cases Nat.lt_one_iff.mp columnInside
  let input : BlockEntry tape.inputs := ⟨iind, ⟨row, rowInside⟩⟩
  refine Eq.trans ?_ ((congrArg (blockEntry _ iind output.1 · row) isFirst).symm.trans
    (blockEntry_eq _ output input)).symm
  have isPosition : (Pattern.full (tape.inputs.get iind).slots.length 1).positions[row]? = some (row, 0) := by
    rw [Pattern.positions_full_one, List.getElem?_map, List.getElem?_range rowInside]
    rfl
  exact wellFormed.get_scatter isPosition (List.getElem?_ofFn ..|>.trans (dif_pos rowInside))

end Gradients

end Reading

theorem Graph.Supplies.fits {K : Type} {graph : Graph} {blocks : List Block} {inputs : List Handle}
    (supplies : graph.Supplies blocks inputs) {point : Seed K} (shaped : Session.Shaped blocks point) :
    List.Forall₂ graph.Fits inputs point := by
  refine (forall₂_trans supplies.flip shaped).imp ?_
  rintro input entries ⟨block, ⟨pattern, known, counted⟩, sameLength⟩
  exact ⟨pattern, known, sameLength.trans counted.symm⟩

theorem Graph.Supplies.grow {before after : Graph} {blocks : List Block} {inputs : List Handle}
    (supplies : before.Supplies blocks inputs) (grows : before.Extends after) : after.Supplies blocks inputs := by
  refine supplies.imp ?_
  rintro block input ⟨pattern, known, counted⟩
  exact ⟨pattern, grows.pattern known, counted⟩

theorem Graph.Supplies.sizes_eq {graph : Graph} {first second : List Block} {inputs : List Handle}
    (supplies : graph.Supplies first inputs) (alsoSupplies : graph.Supplies second inputs) :
    List.Forall₂ (fun left right => left.slots.length = right.slots.length) first second := by
  refine (forall₂_trans supplies alsoSupplies.flip).imp ?_
  rintro left right ⟨input, ⟨pattern, known, counted⟩, other, isOther, otherCounted⟩
  cases known.symm.trans isOther
  exact counted.symm.trans otherCounted

theorem Session.Shaped.of_sizes {α : Type} {first second : List Block}
    (same : List.Forall₂ (fun left right => left.slots.length = right.slots.length) first second)
    {point : Seed α} (shaped : Session.Shaped second point) : Session.Shaped first point := by
  refine (forall₂_trans same shaped).imp ?_
  rintro left entries ⟨right, sameSize, sameLength⟩
  exact sameLength.trans sameSize.symm

/-! ## Sensitivities of built tapes -/

theorem unitSeed_eq_of_lengths {α : Type} (zero one : α) {first second : List Block}
    (same : List.Forall₂ (fun left right => left.slots.length = right.slots.length) first second) (index : Nat)
    (chosen : List Nat) : unitSeed zero one first index chosen = unitSeed zero one second index chosen := by
  have bySize : ∀ blocks : List Block, unitSeed zero one blocks index chosen =
      (blocks.map fun block => block.slots.length).zipIdx.map fun block =>
        (List.range block.1).map fun entry => if block.2 = index ∧ entry ∈ chosen then one else zero := by
    intro blocks
    rw [List.zipIdx_map, List.map_map]
    rfl
  have sizes : (first.map fun block => block.slots.length) = second.map fun block => block.slots.length := by
    rw [← List.forall₂_eq_eq_eq, List.forall₂_map_left_iff, List.forall₂_map_right_iff]
    exact same
  rw [bySize, bySize, sizes]

namespace Graph

variable {R : Type} [CommRing R] {literal : Float → R} {graph : Graph} {inputs outputs : List Handle}
  {options : BuildOptions} {tape : Tape} {point : Seed R}

theorem supplies_of_build (built : graph.build options inputs outputs = .ok tape) :
    graph.Supplies tape.inputs inputs :=
  (build_valid built).2.flip.imp fun block _ both => ⟨block.pattern, both.1, both.2.symm⟩

theorem WellFormed.build_inRing (wellFormed : graph.WellFormed)
    (built : graph.build options inputs outputs = .ok tape) (isZero : literal 0 = 0)
    (shaped : Session.Shaped tape.inputs point) :
    List.Forall₂ (fun output block => ∃ pattern, graph.pattern output = .ok pattern ∧
      (graph.denote (.ofRing literal) (assignment inputs point) output).Holds pattern
        (block.slots.map (tape.inRing literal point))) outputs tape.outputs := by
  have valid := (build_valid built).1
  exact wellFormed.build_holds built (.ofRing literal isZero) ((supplies_of_build built).fits shaped)
    (shaped.map_stored valid.nodup_inputs valid.inputsBelow 0)

/-- The sensitivities of a built tape are the derivative parts of what its outputs denote over the dual
numbers. -/
theorem WellFormed.sensitivity_build (wellFormed : graph.WellFormed)
    (built : graph.build options inputs outputs = .ok tape) (isZero : literal 0 = 0)
    (shaped : Session.Shaped tape.inputs point) (output : BlockEntry tape.outputs) (input : BlockEntry tape.inputs)
    {handle : Handle} (isOutput : outputs[output.1.val]? = some handle) {pattern : Pattern}
    (known : graph.pattern handle = .ok pattern) {position : Nat × Nat}
    (isPosition : pattern.positions[output.2.val]? = some position) :
    tape.sensitivity (tape.ringRecord literal point) output input =
      ((graph.denote (.ofRing fun number => (inl (literal number) : DualNumber R))
        (assignment inputs (dualized point (unitSeed 0 1 tape.inputs input.1 [input.2.val]))) handle).get
        position.1 position.2).snd := by
  have valid := (build_valid built).1
  have dualShaped := shaped_dualized shaped
    (Seed.shaped_unitSeed (0 : R) 1 input.1.val [input.2.val])
  let dualLiteral : Float → DualNumber R := fun number => inl (literal number)
  have isDualZero : dualLiteral 0 = 0 := (congrArg inl isZero).trans (inl_zero R)
  rcases forall₂_getElem? (wellFormed.build_inRing built isDualZero dualShaped) isOutput with
    ⟨block, isBlock, other, isOther, holds⟩
  cases known.symm.trans isOther
  cases isBlock.symm.trans (List.getElem?_eq_getElem output.1.isLt)
  rw [Tape.sensitivity_eq_snd valid shaped]
  refine congrArg TrivSqZeroExt.snd (holds.get_eq isPosition ?_).symm
  simp [BlockEntry.slot, dualLiteral]

end Graph

/-! ## Hessians -/

namespace Reading

variable {R : Type} [CommRing R] {literal : Float → R} {world : World} {tape : Tape} {inputs : List Handle}
  {point : Seed R} (numerals : Numerals literal)
  (polynomial : ∀ instruction ∈ tape.instructions, instruction.op.isPolynomial)
  (symbols : ∀ input ∈ inputs, world.graph.IsSymbol input) (distinct : inputs.Nodup)

include polynomial in
theorem allowsOp_ofRing : ∀ instruction ∈ tape.instructions,
    (Reading.ofRing literal inputs point).vocabulary.AllowsOp instruction.op :=
  fun instruction member => Vocabulary.allowsOp_polynomial.mpr (polynomial instruction member)

include symbols in
theorem spelled_ofRing :
    ∀ input ∈ inputs, world.graph.Spelled (Reading.ofRing literal inputs point).vocabulary input :=
  fun input member => (symbols input member).spelled member

include numerals polynomial symbols distinct

/-- The gradient of a polynomial tape, with the entries that a point gives to the symbols. -/
theorem completes_gradientColumn_ofRing (valid : tape.Valid)
    (supplies : world.graph.Supplies tape.inputs inputs) (iind : Fin tape.inputs.length)
    {output : BlockEntry tape.outputs} (isFirst : output.2.val = 0)
    (fits : (tape.inputs.get iind).slots.length ≤ maxBuffer)
    (shaped : Session.Shaped tape.inputs point) :
    Completes world (tape.gradientColumn inputs iind output.1) (tape.gradientColumn inputs iind output.1)
      fun later handle => (Reading.ofRing literal inputs point).Shows later handle
        ((tape.inputs.get iind).slots.length, 1)
        (fun row column => (row, column) ∈ (Pattern.full (tape.inputs.get iind).slots.length 1).positions)
        fun row _ => blockEntry (tape.sensitivity (tape.ringRecord literal point)) iind output.1 0 row := by
  have stored := world.sound.wellFormed.storedValues_symbols symbols distinct (supplies.fits shaped)
    (.ofRing literal)
  have completes := completes_gradientColumn (numerals.linear inputs point) (numerals.derives inputs point)
    numerals.one valid (allowsOp_ofRing polynomial) supplies (spelled_ofRing symbols) iind isFirst fits
  rw [show inputs.map (world.graph.storedValues (Reading.ofRing literal inputs point).meaning
    (Reading.ofRing literal inputs point).assignment) = point from stored] at completes
  exact completes

/-- The Jacobian of a lowered column: its entries are the derivative parts of the entries of the column over the
dual numbers. -/
theorem completes_jacobianExpr_lowered {column : Handle} {size : Nat}
    (known : world.graph.pattern column = .ok (.full size 1)) {options : BuildOptions}
    (built : world.graph.build options inputs [column] = .ok tape) (iind : Fin tape.inputs.length)
    (fits : size ≤ maxBuffer) (shaped : Session.Shaped tape.inputs point) :
    Completes world (tape.jacobianExpr inputs iind 0) (tape.jacobianExpr inputs iind 0)
      fun later handle => ∃ stores, (Reading.ofRing literal inputs point).Shows later handle
        (size, (tape.inputs.get iind).slots.length) stores
        fun row entry => ((world.graph.denote (.ofRing fun number => (inl (literal number) : DualNumber R))
          (Graph.assignment inputs (dualized point (unitSeed 0 1 tape.inputs iind [entry]))) column).get
          row 0).snd := by
  have valid := (Graph.build_valid built).1
  have supplies := Graph.supplies_of_build built
  have isPoint : inputs.map (world.graph.storedValues (Reading.ofRing literal inputs point).meaning
      (Reading.ofRing literal inputs point).assignment) = point :=
    world.sound.wellFormed.storedValues_symbols symbols distinct (supplies.fits shaped) (.ofRing literal)
  -- The tape has one output block, with a slot for every row of the column.
  rcases List.forall₂_cons_left_iff.mp (world.sound.wellFormed.build_inRing built numerals.zero shaped) with
    ⟨block, rest, ⟨pattern, isPattern, holds⟩, noMore, isOutputs⟩
  cases noMore
  cases known.symm.trans isPattern
  have single : tape.outputs.length = 1 := by rw [isOutputs, List.length_singleton]
  let oind : Fin tape.outputs.length := ⟨0, by omega⟩
  have isBlock : tape.outputs.get oind = block := by simp [oind, isOutputs]
  have height : (tape.outputs.get oind).slots.length = size := by
    rw [isBlock]
    simpa [Pattern.positions_full_one] using holds.length_eq.symm
  rcases valid.bounded.exists_jacobianPattern iind oind with ⟨jacobian, found, represents⟩
  apply (completes_jacobianExpr (numerals.linear inputs point) (numerals.derives inputs point) numerals.one valid
    (allowsOp_ofRing polynomial) supplies (spelled_ofRing symbols) iind oind (height ▸ fits) found).mono
  intro later handle _ shown
  rw [isPoint, represents.shape_eq, height] at shown
  refine ⟨_, shown.congr (fun _ _ => Iff.rfl) ?_⟩
  intro row entry rowInside entryInside
  let output : BlockEntry tape.outputs := ⟨oind, ⟨row, height ▸ rowInside⟩⟩
  let input : BlockEntry tape.inputs := ⟨iind, ⟨entry, entryInside⟩⟩
  have isPosition : (Pattern.full size 1).positions[row]? = some (row, 0) := by
    rw [Pattern.positions_full_one, List.getElem?_map, List.getElem?_range rowInside]
    rfl
  exact (blockEntry_eq _ output input).trans
    (world.sound.wellFormed.sensitivity_build built numerals.zero shaped output input rfl known isPosition)

theorem completes_hessianExpr (valid : tape.Valid)
    (supplies : world.graph.Supplies tape.inputs inputs) (iind : Fin tape.inputs.length)
    (output : BlockEntry tape.outputs) (single : (tape.outputs.get output.1).slots.length = 1)
    (fits : (tape.inputs.get iind).slots.length ≤ maxBuffer)
    (shaped : Session.Shaped tape.inputs point) :
    Completes world (tape.hessianExpr inputs iind output.1) (tape.hessianExpr inputs iind output.1)
      fun later handle => ∃ stores, (Reading.ofRing literal inputs point).Shows later handle
        ((tape.inputs.get iind).slots.length, (tape.inputs.get iind).slots.length) stores
        fun row column => mixed (tape.inRing (fun number => inl (inl (literal number)))
          (perturbed point iind row column) output.slot) := by
  have isFirst : output.2.val = 0 := by
    have inside := output.2.isLt
    omega
  let DualPoint := { dual : Seed (DualNumber R) // Session.Shaped tape.inputs dual }
  let unit (entry : Nat) : DualPoint :=
    ⟨_, shaped_dualized shaped (Seed.shaped_unitSeed 0 1 iind.val [entry])⟩
  have : Nonempty DualPoint := ⟨unit 0⟩
  apply Completes.liftExcept_bind (tape.block_input iind)
  apply Completes.liftExcept_bind (tape.block_output output.1)
  simp only [single, ne_eq, not_true_eq_false, if_false]
  -- The gradient is read at all dual points at once.
  have gradients := Completes.all fun dual : DualPoint =>
    completes_gradientColumn_ofRing numerals.inl polynomial symbols distinct valid supplies iind isFirst
      fits dual.2
  apply gradients.bind
  intro middle column growsMiddle shown
  have middleSymbols : ∀ input ∈ inputs, middle.graph.IsSymbol input :=
    fun input member => (symbols input member).grow growsMiddle.1
  have known : middle.graph.pattern column = .ok (.full (tape.inputs.get iind).slots.length 1) :=
    (Pattern.shape_full _ _ ▸ shown (unit 0)).pattern_eq (Pattern.wellFormed_full _ _)
  have spelled : ∀ output ∈ [column], middle.graph.Spelled (.polynomial inputs) output :=
    List.forall_mem_singleton.mpr (shown (unit 0)).spelled
  rcases middle.sound.wellFormed.exists_build middleSymbols distinct (fun _ => id) spelled {} with
    ⟨gradientTape, built, allowed⟩
  have isLowered : (Tape.lowered inputs column).run.run middle.graph = (.ok gradientTape, middle.graph) := by
    change (middle.graph.build {} inputs [column], middle.graph) = _
    rw [built]
  apply Completes.query_bind isLowered
  have sameSizes := (Graph.supplies_of_build built).sizes_eq (supplies.grow growsMiddle.1)
  have gradientPolynomial : ∀ instruction ∈ gradientTape.instructions, instruction.op.isPolynomial :=
    fun instruction member => Vocabulary.allowsOp_polynomial.mp (allowed instruction member)
  let sameBlock : Fin gradientTape.inputs.length := ⟨iind, iind.isLt.trans_eq sameSizes.length_eq.symm⟩
  have width : (gradientTape.inputs.get sameBlock).slots.length = (tape.inputs.get iind).slots.length :=
    (List.forall₂_iff_get.mp sameSizes).2 iind sameBlock.isLt iind.isLt
  apply (completes_jacobianExpr_lowered numerals gradientPolynomial middleSymbols distinct known built sameBlock
    fits (.of_sizes sameSizes shaped)).mono
  rintro later handle growsLater ⟨stores, shownLater⟩
  rw [width] at shownLater
  refine ⟨stores, shownLater.congr_entry fun exact row entry rowInside entryInside => ?_⟩
  -- What the second tape computes at a dual point is a sensitivity of the first one there.
  let input : BlockEntry tape.inputs := ⟨iind, ⟨row, rowInside⟩⟩
  have isEntry := (shown (unit entry)).get_eq ((exact.before growsLater).inl _) row 0 rowInside Nat.one_pos
  rw [unitSeed_eq_of_lengths 0 1 sameSizes]
  refine (congrArg TrivSqZeroExt.snd (isEntry.trans ?_)).trans
    (Tape.snd_sensitivity_eq_mixed valid shaped literal output input entry)
  exact (congrArg (blockEntry _ iind output.1 · row) isFirst).symm.trans (blockEntry_eq _ output input)

end Reading

attribute [-instance] Scalar.toAdd Scalar.toSub Scalar.toMul Scalar.toDiv Scalar.toNeg

theorem Scalar.Exact.evaluate_eq {K : Type} [CommRing K] {scalar : Scalar K} (exact : scalar.Exact) {tape : Tape}
    (valid : tape.Valid) (polynomial : ∀ instruction ∈ tape.instructions, instruction.op.isPolynomial)
    {point : Seed K} (shaped : Session.Shaped tape.inputs point) (options : EvalOptions)
    (work : Vector K tape.numSlots) :
    ((Session.holding tape options (Autodiff.numbers options.domainPolicy) scalar.one work).perform
      (Session.evaluate point)).1 =
        .ok (Seed.ofVector tape.outputs fun output => tape.inRing scalar.ofLiteral point output.slot) := by
  have evaluates := (numbers_interprets exact.isFinite options.domainPolicy).evaluates
  rw [(evaluates.evaluate_stored valid shaped 0 options scalar.one).outcome work,
    exact.executeAll_eq polynomial]
  rfl

theorem Scalar.Exact.evaluate_build {K : Type} [CommRing K] {scalar : Scalar K} (exact : scalar.Exact)
    (isZero : scalar.ofLiteral 0 = 0) {graph : Graph} (wellFormed : graph.WellFormed) {inputs : List Handle}
    {handle : Handle} {pattern : Pattern} (known : graph.pattern handle = .ok pattern)
    {buildOptions : BuildOptions} {tape : Tape} (built : graph.build buildOptions inputs [handle] = .ok tape)
    (polynomial : ∀ instruction ∈ tape.instructions, instruction.op.isPolynomial) {point : Seed K}
    (shaped : Session.Shaped tape.inputs point) (options : EvalOptions) (work : Vector K tape.numSlots) :
    ∃ entries : List K,
      ((Session.holding tape options (Autodiff.numbers options.domainPolicy) scalar.one work).perform
        (Session.evaluate point)).1 = .ok [entries] ∧
      pattern.scatter entries =
        graph.denote (.ofRing scalar.ofLiteral) (Graph.assignment inputs point) handle := by
  rcases List.forall₂_cons_left_iff.mp (wellFormed.build_inRing built isZero shaped) with
    ⟨block, rest, ⟨other, isOther, holds⟩, noMore, isOutputs⟩
  cases noMore
  cases known.symm.trans isOther
  have supported := wellFormed.denote_supported (.ofRing scalar.ofLiteral isZero)
    (Graph.assignment inputs point) known
  refine ⟨_, ?_, (wellFormed.pattern known).scatter_eq supported holds⟩
  rw [exact.evaluate_eq (Graph.build_valid built).1 polynomial shaped, ← Seed.ofVector_slots, isOutputs]
  rfl

theorem Tape.Valid.exists_hessianExpr {K : Type} [CommRing K] {literal : Float → K} {tape : Tape}
    (valid : tape.Valid) (numerals : Numerals literal)
    (polynomial : ∀ instruction ∈ tape.instructions, instruction.op.isPolynomial) {graph : Graph}
    (sound : graph.Sound) {inputs : List Handle} (symbols : ∀ input ∈ inputs, graph.IsSymbol input)
    (distinct : inputs.Nodup) (supplies : graph.Supplies tape.inputs inputs) (iind : Fin tape.inputs.length)
    (output : BlockEntry tape.outputs) (single : (tape.outputs.get output.1).slots.length = 1)
    (fits : (tape.inputs.get iind).slots.length ≤ maxBuffer) {point : Seed K}
    (shaped : Session.Shaped tape.inputs point) :
    ∃ (handle : Handle) (final : World) (stores : Nat → Nat → Prop),
      (tape.hessianExpr inputs iind output.1 : GraphM _).run.run graph = (.ok handle, final.graph) ∧
      graph.Extends final.graph ∧
      final.foldings = TracedM.foldings (tape.hessianExpr inputs iind output.1) graph ∧
      (Reading.ofRing literal inputs point).Shows final handle
        ((tape.inputs.get iind).slots.length, (tape.inputs.get iind).slots.length) stores
        fun row column => mixed (tape.inRing (fun number => inl (inl (literal number)))
          (perturbed point iind row column) output.slot) := by
  let start : World := ⟨⟨graph, []⟩, sound⟩
  have startSupplies : start.graph.Supplies tape.inputs inputs := supplies
  rcases Reading.completes_hessianExpr numerals polynomial symbols distinct valid startSupplies iind output
    single fits shaped with ⟨handle, final, traced, ran, grows, stores, shown⟩
  refine ⟨handle, final, stores, ran, grows.1, ?_, shown⟩
  rw [TracedM.foldings, traced]

/-- The expression for a Hessian is the second derivative. Take a valid tape that only adds, subtracts, multiplies,
negates and squares, an output block with one stored entry, an input block whose entries fit in memory, and
distinct symbols of a reachable graph with as many stored entries as the input blocks have. The call succeeds with
a square expression, and with any options a tape is built from it. Over every commutative ring, and provided that
the foldings of this call are exact, every session evaluates the built tape to entries which make up, with zeros
elsewhere, the matrix of mixed second derivatives: the entry in a row and a column is the coefficient of the
product of two infinitesimals when the first tape is evaluated at the point with one of them added to the entry of
the row and the other to the entry of the column. This matrix is symmetric. -/
theorem Tape.hessianExpr_eq_mixed {tape : Tape} (checked : tape.validate = .ok ())
    (polynomial : ∀ instruction ∈ tape.instructions, instruction.op.isPolynomial) {graph : Graph}
    (reachable : graph.Reachable) {inputs : List Handle} (symbols : ∀ input ∈ inputs, graph.IsSymbol input)
    (distinct : inputs.Nodup) (supplies : graph.Supplies tape.inputs inputs) (iind : Fin tape.inputs.length)
    (oind : Fin tape.outputs.length) (single : (tape.outputs.get oind).slots.length = 1)
    (fits : (tape.inputs.get iind).slots.length ≤ maxBuffer) :
    ∃ (handle : Handle) (after : Graph) (pattern : Pattern),
      (tape.hessianExpr inputs iind oind : GraphM _).run.run graph = (.ok handle, after) ∧
      after.pattern handle = .ok pattern ∧
      pattern.shape = ((tape.inputs.get iind).slots.length, (tape.inputs.get iind).slots.length) ∧
      ∀ buildOptions : BuildOptions, ∃ hessian, after.build buildOptions inputs [handle] = .ok hessian ∧
        ∀ {K : Type} [CommRing K] {scalar : Scalar K} {duals : Scalar (DualNumber (DualNumber K))},
          scalar.Exact → Numerals scalar.ofLiteral →
          (∀ folding ∈ TracedM.foldings (tape.hessianExpr inputs iind oind) graph, scalar.meaning.Folds folding) →
          duals.Exact → (∀ literal, duals.ofLiteral literal = inl (inl (scalar.ofLiteral literal))) →
          ∀ {point : Seed K}, Session.Shaped tape.inputs point →
          ∀ (options : EvalOptions) (work : Vector K hessian.numSlots)
            (dualWork : Vector (DualNumber (DualNumber K)) tape.numSlots),
            ∃ entries : List K,
              ((Session.holding hessian options (numbers options.domainPolicy) scalar.one work).perform
                (Session.evaluate point)).1 = .ok [entries] ∧
              (∀ row column, row < pattern.nrow → column < pattern.ncol →
                ∃ (values : Seed (DualNumber (DualNumber K))) (value : DualNumber (DualNumber K)),
                  ((Session.holding tape options (numbers options.domainPolicy) duals.one dualWork).perform
                    (Session.evaluate (perturbed point iind row column))).1 = .ok values ∧
                  values.entry oind 0 = .ok value ∧
                  (pattern.scatter entries).get row column = mixed value) ∧
              ∀ row column, (pattern.scatter entries).get row column =
                (pattern.scatter entries).get column row := by
  have valid := valid_of_validate checked
  let output : BlockEntry tape.outputs := ⟨oind, ⟨0, by omega⟩⟩
  -- The run does not depend on a ring: the ring with one element shows that it succeeds.
  have oneElement : Numerals fun _ => (0 : PUnit) := ⟨rfl, rfl, rfl, rfl, rfl⟩
  rcases valid.exists_hessianExpr oneElement polynomial reachable.sound symbols distinct supplies iind
    output single fits (Seed.shaped_unitSeed 0 0 0 []) with ⟨handle, final, stores, ran, grows, _, shown⟩
  rcases shown.represented with ⟨pattern, known, represents⟩
  have wellFormed := final.sound.wellFormed
  refine ⟨handle, final.graph, pattern, ran, known, represents.shape_eq, fun buildOptions => ?_⟩
  rcases wellFormed.exists_build (fun input member => (symbols input member).grow grows) distinct (fun _ => id)
    (List.forall_mem_singleton.mpr shown.spelled) buildOptions with ⟨hessian, built, allowed⟩
  have hessianPolynomial : ∀ instruction ∈ hessian.instructions, instruction.op.isPolynomial :=
    fun instruction member => Vocabulary.allowsOp_polynomial.mp (allowed instruction member)
  have sizes := (Graph.supplies_of_build built).sizes_eq (supplies.grow grows)
  refine ⟨hessian, built, ?_⟩
  intro K _ scalar duals exact numerals exactFoldings dualExact lifted point shaped options work dualWork
  rcases valid.exists_hessianExpr numerals polynomial reachable.sound symbols distinct supplies iind
    output single fits shaped with ⟨sameHandle, sameFinal, sameStores, ranAgain, _, foldings, shownAgain⟩
  rcases Prod.mk.inj (ran.symm.trans ranAgain) with ⟨sameOutcome, sameGraph⟩
  cases Except.ok.inj sameOutcome
  have isExact : (Reading.ofRing scalar.ofLiteral inputs point).Exact sameFinal := by
    intro folding member isAllowed
    rw [foldings] at member
    exact exact.folds (Vocabulary.allowsOp_polynomial.mp isAllowed) (exactFoldings folding member)
  rcases exact.evaluate_build numerals.zero wellFormed known built hessianPolynomial
    (.of_sizes sizes shaped) options work with ⟨entries, evaluated, isMatrix⟩
  have isMixed : ∀ row column, row < pattern.nrow → column < pattern.ncol →
      (pattern.scatter entries).get row column =
        mixed (tape.inRing (fun number => inl (inl (scalar.ofLiteral number)))
          (perturbed point iind row column) output.slot) := by
    intro row column rowInside columnInside
    rw [represents.nrow_eq] at rowInside
    rw [represents.ncol_eq] at columnInside
    rw [isMatrix, sameGraph]
    exact shownAgain.get_eq isExact row column rowInside columnInside
  refine ⟨entries, evaluated, ?_, ?_⟩
  · intro row column rowInside columnInside
    refine ⟨_, _, dualExact.evaluate_eq valid polynomial (shaped_perturbed shaped _ _ _) options dualWork,
      Seed.entry_ofVector _ output, ?_⟩
    rw [isMixed row column rowInside columnInside, funext lifted]
  · intro row column
    have square : pattern.nrow = pattern.ncol := represents.nrow_eq.trans represents.ncol_eq.symm
    by_cases inside : row < pattern.nrow ∧ column < pattern.ncol
    · rw [isMixed row column inside.1 inside.2,
        isMixed column row (inside.2.trans_eq square.symm) (inside.1.trans_eq square)]
      exact tape.mixed_symmetric _ _ _ _ _ _
    · have outside : ¬(column < pattern.nrow ∧ row < pattern.ncol) := by omega
      exact (Dense.get_of_not_inside inside).trans (Dense.get_of_not_inside outside).symm

/-! ## The second derivative of a square -/

def square : Tape :=
  ⟨[⟨.unary .sq, 1, 0, unusedOperand, 0⟩], 2, [⟨"x", .scalar, [0]⟩], [⟨"y", .scalar, [1]⟩]⟩

def twice : Tape :=
  ⟨[⟨.const, 1, unusedOperand, unusedOperand, 2⟩, ⟨.binary .mul, 1, 0, 1, 0⟩], 2, [⟨"x", .scalar, [0]⟩],
    [⟨"o0", .scalar, [1]⟩]⟩

theorem square_validate : square.validate = .ok () := by
  simp [square, Tape.validate, Tape.checkInputs, Tape.checkSlotCount, Tape.checkInputSlots, Tape.checkInstructions,
    Tape.checkOutputs, Instruction.spareOperands, Instruction.operands, Pattern.nnz, Pattern.scalar]

namespace Graph

def squared : Graph :=
  (GraphM.binary (.binary .mul) .two ⟨3⟩).graphAfter ((GraphM.unary (.unary .sq) ⟨3⟩).graphAfter
    ((GraphM.scalarSymbol "x").graphAfter .initial))

theorem reachable_squared : squared.Reachable :=
  .after (.after (.after .initial (.scalarSymbol ..)) (.unary ..)) (.binary ..)

/-- The nodes of a symbol, its square and its double, with any table. -/
def squaredWith (interned : Std.HashMap Node Handle) : Graph :=
  ⟨#[⟨.constant 0, .scalar, 0⟩, ⟨.constant 1, .scalar, 0⟩, ⟨.constant 2, .scalar, 1⟩, ⟨.symbol 0, .scalar, 2⟩,
    ⟨.unary .sq ⟨3⟩, .scalar, 0⟩, ⟨.binary .mul .two ⟨3⟩, .scalar, 0⟩], interned, #["x"]⟩

theorem squared_eq : ∃ interned : Std.HashMap Node Handle, squared = squaredWith interned := by
  rcases initial_eq with ⟨zero, one, two, interned, same, absent⟩
  have literals := sound_initial
  rw [same] at literals
  rcases literals.zero with ⟨_, ⟨⟩, isZero, _⟩
  rcases literals.one with ⟨_, ⟨⟩, isOne, _⟩
  rcases literals.two with ⟨_, ⟨⟩, isTwo, _⟩
  cases isZero
  cases isOne
  cases isTwo
  let symbol : Graph := (GraphM.scalarSymbol "x").graphAfter ⟨#[⟨.constant 0, .scalar, 0⟩,
    ⟨.constant 1, .scalar, 0⟩, ⟨.constant 2, .scalar, 0⟩], interned, #[]⟩
  let table := interned.insert (.unary .sq ⟨3⟩) ⟨4⟩
  have noSquare : symbol.interned[Node.unary .sq ⟨3⟩]? = none := absent _ (by decide)
  have noDouble : table[Node.binary .mul .two ⟨3⟩]? = none := by
    rw [Std.HashMap.getElem?_insert, absent _ (by decide)]
    rfl
  have isSquare : (GraphM.unary (.unary .sq) ⟨3⟩).graphAfter symbol = ⟨#[⟨.constant 0, .scalar, 0⟩,
      ⟨.constant 1, .scalar, 0⟩, ⟨.constant 2, .scalar, 0⟩, ⟨.symbol 0, .scalar, 1⟩,
      ⟨.unary .sq ⟨3⟩, .scalar, 0⟩], table, #["x"]⟩ := by
    change (symbol.insert (.unary .sq ⟨3⟩) .scalar).2 = _
    rw [Graph.insert, noSquare]
    rfl
  refine ⟨table.insert (.binary .mul .two ⟨3⟩) ⟨5⟩, ?_⟩
  rw [squared, same, isSquare]
  change (Graph.insert _ (.binary .mul .two ⟨3⟩) .scalar).2 = _
  rw [Graph.insert, noDouble]
  rfl

/-- The double is lowered to one literal and one product. -/
theorem build_squaredWith (interned : Std.HashMap Node Handle) :
    (squaredWith interned).build {} [⟨3⟩] [⟨5⟩] = .ok twice := by
  let graph := squaredWith interned
  let two : Instruction := ⟨.const, 1, unusedOperand, unusedOperand, 2⟩
  let product : Instruction := ⟨.binary .mul, 2, 0, 1, 0⟩
  let constants := (∅ : Std.HashMap UInt64 Nat).insert (2 : Float).toBits 1
  let operations := (∅ : Std.HashMap (Opcode × Nat × Nat) Nat).insert (.binary .mul, 0, 1) 2
  let declared : Emission := ⟨1, #[], #[none, none, none, some #[0], none, none], ∅, ∅⟩
  let middle : Emission := ⟨1, #[two], #[none, none, some #[1], some #[0], none, none], constants, ∅⟩
  have emitsTwo : declared.constant true 2 = (1, ⟨1, #[two], declared.values, constants, ∅⟩) := by
    simp [Emission.constant, Emission.nextValue, declared, two, constants]
  have emitsProduct : middle.operation true (.binary .mul) 1 0 =
      (2, ⟨1, #[two, product], middle.values, constants, operations⟩) := by
    simp [Emission.operation, Opcode.isCommutative, BinaryOp.isCommutative, Emission.sortedOperation,
      Emission.nextValue, middle, product, operations]
  have declares : (graph.declareInputs [] [⟨3⟩]).run { values := Array.replicate graph.size none } =
      .ok ([⟨"x", .scalar, [0]⟩], declared) := rfl
  have order : graph.postOrder [⟨5⟩] = .ok [⟨2⟩, ⟨3⟩, ⟨5⟩] := by cbv
  have visitsTwo : (EmitM.visit graph true ⟨2⟩).run declared = .ok ((), middle) := by
    have found : graph.entry ⟨2⟩ = .ok ⟨.constant 2, .scalar, 1⟩ := rfl
    have fresh : declared.values[2]? = some none := rfl
    simp [EmitM.visit, EmitM.lower, found, EmitM.lowerNode, emitsTwo, fresh]
    rfl
  have visitsDouble : (EmitM.visit graph true ⟨5⟩).run middle =
      .ok ((), ⟨1, #[two, product], middle.values.setIfInBounds 5 (some #[2]), constants, operations⟩) := by
    have found : graph.entry ⟨5⟩ = .ok ⟨.binary .mul .two ⟨3⟩, .scalar, 0⟩ := rfl
    have positions : Pattern.scalar.positions = [(0, 0)] := by decide
    have left : (EmitM.element graph true .two 0 0).run middle = .ok (1, middle) := rfl
    have right : (EmitM.element graph true ⟨3⟩ 0 0).run middle = .ok (0, middle) := rfl
    have fresh : middle.values[5]? = some none := rfl
    simp [EmitM.visit, EmitM.lower, found, EmitM.lowerNode, positions, left, right, emitsProduct, fresh]
  rw [Graph.build, Graph.emitAll, run_bind_of_ok declares, run_bind_of_ok rfl, order,
    run_bind_of_ok rfl, List.forM_eq_forM, List.forM_cons, bind_assoc, run_bind_of_ok visitsTwo,
    List.forM_cons, bind_assoc, run_bind_of_ok rfl, List.forM_cons, bind_assoc,
    run_bind_of_ok visitsDouble]
  cbv

end Graph

-- The graph has every node that the runs below ask for, so they only write down foldings.
section Square

open TracedM

variable {interned : Std.HashMap Node Handle} (tidy : (Graph.squaredWith interned).Tidy)
include tidy

theorem Graph.Tidy.run_add_squaredWith (index : Nat) {node : Node}
    (isNode : (squaredWith interned).nodes[index]? = some node) (notSymbol : node.isSymbol = false)
    (derived : (squaredWith interned).derive node = .ok .scalar) (foldings : List Folding) :
    (liftM (GraphM.add node) : TracedM Handle).run.run ⟨squaredWith interned, foldings⟩ =
      (.ok ⟨index⟩, ⟨squaredWith interned, foldings⟩) :=
  TracedM.run_add derived (tidy.interned isNode notSymbol) foldings

/-- The gradient of the square is the double; the seed of the output is folded. -/
theorem square_gradientColumn :
    (square.gradientColumn [⟨3⟩] 0 0 : TracedM Handle).run.run ⟨Graph.squaredWith interned, []⟩ =
      (.ok ⟨5⟩, ⟨Graph.squaredWith interned, [⟨.binary .add, 0, 1⟩]⟩) := by
  let start : Workspace := ⟨Graph.squaredWith interned, []⟩
  let final : Workspace := ⟨Graph.squaredWith interned, [⟨.binary .add, 0, 1⟩]⟩
  let squaring : Instruction := ⟨.unary .sq, 1, 0, unusedOperand, 0⟩
  have evaluates : (expressions.eval squaring.op ⟨3⟩ .zero : TracedM Handle).run.run start = (.ok ⟨4⟩, start) :=
    tidy.run_add_squaredWith 4 rfl rfl rfl []
  have doubles : (Symbolic.binary .mul .two ⟨3⟩ : TracedM Handle).run.run start = (.ok ⟨5⟩, start) :=
    tidy.run_add_squaredWith 5 rfl rfl rfl []
  have sums : (expressions.add .zero .one : TracedM Handle).run.run start = (.ok .one, final) :=
    tidy.run_add_squaredWith 1 rfl rfl rfl [⟨.binary .add, 0, 1⟩]
  have records : (square.recorded expressions #[⟨3⟩, .zero] : TracedM _).run.run start =
      (.ok (#[⟨3⟩, ⟨4⟩], [(squaring, (⟨5⟩, .zero))]), start) := by
    have steps : (squaring.step expressions 0 #[⟨3⟩, .zero] : TracedM _).run.run start =
        (.ok ⟨⟨3⟩, .zero, ⟨4⟩⟩, start) := continues evaluates
    have derives : (expressions.partials squaring.op ⟨3⟩ .zero ⟨4⟩ : TracedM _).run.run start =
        (.ok (⟨5⟩, .zero), start) := continues doubles
    have keeps : (recordStep expressions (#[⟨3⟩, .zero], []) (squaring, 0) : TracedM _).run.run start =
        (.ok (#[⟨3⟩, ⟨4⟩], [(squaring, (⟨5⟩, .zero))]), start) :=
      (continues steps).trans (continues derives)
    exact continues keeps
  have scatters : ([[[.one]]].mapM (scatterAdd expressions 2 square.outputs) : TracedM _).run.run start =
      (.ok [#[.zero, .one]], final) := by
    have accumulates : (Instruction.accumulate expressions #[.zero, .zero] 1 .one : TracedM _).run.run start =
        (.ok #[.zero, .one], final) := continues sums
    have direction : (scatterAdd expressions 2 square.outputs [[.one]] : TracedM _).run.run start =
        (.ok #[.zero, .one], final) := continues accumulates
    exact continues direction
  have reverses : (square.reverse expressions #[⟨3⟩, .zero] [[[.one]]] : TracedM _).run.run start =
      (.ok (#[⟨3⟩, ⟨4⟩], ⟨[[⟨4⟩]], [[[⟨5⟩]]]⟩), final) := by
    refine (continues records).trans ?_
    refine (continues rfl).trans ?_
    exact (continues scatters).trans rfl
  have pullsBack : (square.reverseSymbolic [[⟨3⟩]] [[[.one]]] : TracedM _).run.run start =
      (.ok ⟨[[⟨4⟩]], [[[⟨5⟩]]]⟩, final) := by
    refine (continues rfl).trans ?_
    refine (continues rfl).trans ?_
    refine (continues rfl).trans ?_
    exact continues reverses
  refine (continues rfl).trans ?_
  refine (continues pullsBack).trans ?_
  exact (continues rfl).trans rfl

/-- The derivative of the double is two; the product of two and the seed is folded. -/
theorem twice_jacobianExpr (foldings : List Folding) :
    (twice.jacobianExpr [⟨3⟩] 0 0 : TracedM Handle).run.run ⟨Graph.squaredWith interned, foldings⟩ =
      (.ok .two, ⟨Graph.squaredWith interned, ⟨.binary .mul, 2, 1⟩ :: foldings⟩) := by
  let start : Workspace := ⟨Graph.squaredWith interned, foldings⟩
  let final : Workspace := ⟨Graph.squaredWith interned, ⟨.binary .mul, 2, 1⟩ :: foldings⟩
  let two : Instruction := ⟨.const, 1, unusedOperand, unusedOperand, 2⟩
  let product : Instruction := ⟨.binary .mul, 1, 0, 1, 0⟩
  have literal : (expressions.constant 2 : TracedM Handle).run.run start = (.ok .two, start) :=
    tidy.run_add_squaredWith 2 rfl rfl rfl foldings
  have doubles : (expressions.eval product.op ⟨3⟩ .two : TracedM Handle).run.run start = (.ok ⟨5⟩, start) :=
    tidy.run_add_squaredWith 5 rfl rfl rfl foldings
  have scales : (expressions.mul .two .one : TracedM Handle).run.run start = (.ok .two, final) :=
    tidy.run_add_squaredWith 2 rfl rfl rfl (⟨.binary .mul, 2, 1⟩ :: foldings)
  have carriesTwo : (tangentStep expressions (#[⟨3⟩, .zero], [#[.one, .zero]]) (two, 0) : TracedM _).run.run start =
      (.ok (#[⟨3⟩, .two], [#[.one, .zero]]), start) := by
    have steps : (two.step expressions 0 #[⟨3⟩, .zero] : TracedM _).run.run start =
        (.ok ⟨.zero, .zero, .two⟩, start) := (continues rfl).trans (continues literal)
    exact continues steps
  have carriesProduct : (tangentStep expressions (#[⟨3⟩, .two], [#[.one, .zero]]) (product, 1) :
      TracedM _).run.run start = (.ok (#[⟨3⟩, ⟨5⟩], [#[.one, .two]]), final) := by
    have steps : (product.step expressions 1 #[⟨3⟩, .two] : TracedM _).run.run start =
        (.ok ⟨⟨3⟩, .two, ⟨5⟩⟩, start) := continues doubles
    have shares : (Instruction.tangentShare expressions .two .one : TracedM _).run.run start = (.ok .two, final) :=
      (continues rfl).trans scales
    have tangent : (product.tangent expressions (.two, ⟨3⟩) #[.one, .zero] : TracedM _).run.run start =
        (.ok .two, final) := (continues rfl).trans (continues shares)
    have pushes : (pushForward expressions product (.two, ⟨3⟩) #[.one, .zero] : TracedM _).run.run start =
        (.ok #[.one, .two], final) := continues tangent
    have directions : ([#[.one, .zero]].mapM (pushForward expressions product (.two, ⟨3⟩)) :
        TracedM _).run.run start = (.ok [#[.one, .two]], final) := continues pushes
    refine (continues steps).trans ?_
    refine (continues rfl).trans ?_
    exact (continues directions).trans rfl
  have forwards : (twice.forward expressions #[⟨3⟩, .zero] [[[.one]]] : TracedM _).run.run start =
      (.ok (#[⟨3⟩, ⟨5⟩], ⟨[[⟨5⟩]], [[[.two]]]⟩), final) := by
    have sweeps : (twice.tangents expressions #[⟨3⟩, .zero] [#[.one, .zero]] : TracedM _).run.run start =
        (.ok (#[⟨3⟩, ⟨5⟩], [#[.one, .two]]), final) :=
      (continues carriesTwo).trans (continues carriesProduct)
    refine (continues rfl).trans ?_
    exact (continues sweeps).trans rfl
  have pushesForward : (twice.forwardSymbolic [[⟨3⟩]] [[[.one]]] : TracedM _).run.run start =
      (.ok ⟨[[⟨5⟩]], [[[.two]]]⟩, final) := by
    refine (continues rfl).trans ?_
    refine (continues rfl).trans ?_
    refine (continues rfl).trans ?_
    exact continues forwards
  have entries : (twice.jacobianEntries [[⟨3⟩]] 0 0 1 1 .scalar : TracedM _).run.run start = (.ok [.two], final) :=
    continues pushesForward
  have propagated : twice.jacobianPattern 0 0 = .ok .scalar := by cbv
  rw [Tape.jacobianExpr, propagated]
  refine (continues rfl).trans ?_
  refine (continues rfl).trans ?_
  refine (continues rfl).trans ?_
  refine (continues rfl).trans ?_
  exact (continues entries).trans rfl

end Square

theorem square_foldings : TracedM.foldings (square.hessianExpr [⟨3⟩] 0 0) Graph.squared =
    [⟨.binary .mul, 2, 1⟩, ⟨.binary .add, 0, 1⟩] := by
  have tidy := Graph.reachable_squared.of_lasts Graph.lasts_tidy (Graph.lasts_tidy.initial Graph.tidy_empty)
  rcases Graph.squared_eq with ⟨interned, same⟩
  rw [same] at tidy ⊢
  let middle : Workspace := ⟨Graph.squaredWith interned, [⟨.binary .add, 0, 1⟩]⟩
  have lowers : (liftM (Tape.lowered [⟨3⟩] ⟨5⟩) : TracedM Tape).run.run middle = (.ok twice, middle) := by
    change ((Graph.squaredWith interned).build {} [⟨3⟩] [⟨5⟩], middle) = _
    rw [Graph.build_squaredWith]
  have runs : (square.hessianExpr [⟨3⟩] 0 0 : TracedM Handle).run.run ⟨Graph.squaredWith interned, []⟩ =
      (.ok .two, ⟨Graph.squaredWith interned, [⟨.binary .mul, 2, 1⟩, ⟨.binary .add, 0, 1⟩]⟩) := by
    refine (TracedM.continues rfl).trans ?_
    refine (TracedM.continues rfl).trans ?_
    refine (TracedM.continues (square_gradientColumn tidy)).trans ?_
    exact (TracedM.continues lowers).trans (twice_jacobianExpr tidy _)
  exact congrArg (fun run => run.2.foldings) runs

/-- The second derivative of a square over the rational numbers is two everywhere. -/
theorem square_hessianExpr : ∃ (handle : Handle) (after : Graph) (pattern : Pattern),
    (square.hessianExpr [⟨3⟩] 0 0 : GraphM _).run.run Graph.squared = (.ok handle, after) ∧
    after.pattern handle = .ok pattern ∧ pattern.shape = (1, 1) ∧
    ∀ buildOptions : BuildOptions, ∃ hessian, after.build buildOptions [⟨3⟩] [handle] = .ok hessian ∧
      ∀ (x : ℚ) (options : EvalOptions) (work : Vector ℚ hessian.numSlots), ∃ entries : List ℚ,
        ((Session.holding hessian options (@numbers ℚ (.ofField ℚ) options.domainPolicy) 1 work).perform
          (Session.evaluate [[x]])).1 = .ok [entries] ∧ (pattern.scatter entries).get 0 0 = 2 := by
  let duals : Scalar (DualNumber (DualNumber ℚ)) :=
    .ofRing (fun left right => left * Ring.inverse right) fun literal => inl (inl (smallLiteral ℚ literal))
  have dualsExact : duals.Exact := Scalar.exact_ofRing
    (fun left right isUnit => by rw [mul_assoc, Ring.inverse_mul_cancel right isUnit, mul_one]) _
  have ordered : (Scalar.ofField ℚ).Ordered := Scalar.ordered_ofField
  have numerals : Numerals (Scalar.ofField ℚ).ofLiteral :=
    ⟨ordered.literal_zero, ordered.literal_negZero, ordered.literal_one, ordered.literal_negOne,
      ordered.literal_two⟩
  have folds : ∀ folding ∈ TracedM.foldings (square.hessianExpr [⟨3⟩] 0 0) Graph.squared,
      (Scalar.ofField ℚ).meaning.Folds folding := by
    rw [square_foldings]
    exact List.forall_mem_cons.mpr
      ⟨(mul_one (2 : ℚ)).symm, List.forall_mem_singleton.mpr (zero_add (1 : ℚ)).symm⟩
  have symbols : ∀ input ∈ [⟨3⟩], Graph.squared.IsSymbol input := by
    rcases Graph.squared_eq with ⟨interned, same⟩
    rw [same]
    exact List.forall_mem_singleton.mpr ⟨_, rfl, rfl⟩
  have supplies : Graph.squared.Supplies square.inputs [⟨3⟩] := by
    rcases Graph.squared_eq with ⟨interned, same⟩
    rw [same]
    exact .cons ⟨.scalar, rfl, rfl⟩ .nil
  rcases Tape.hessianExpr_eq_mixed square_validate (by decide) Graph.reachable_squared symbols
    (List.nodup_singleton _) supplies ⟨0, Nat.one_pos⟩ ⟨0, Nat.one_pos⟩ rfl (by decide) with
    ⟨handle, after, pattern, ran, known, shape, evaluates⟩
  refine ⟨handle, after, pattern, ran, known, shape, fun buildOptions => ?_⟩
  rcases evaluates buildOptions with ⟨hessian, built, agrees⟩
  refine ⟨hessian, built, fun x options work => ?_⟩
  have shaped : Session.Shaped square.inputs [[x]] := .cons rfl .nil
  rcases agrees ordered.toExact numerals folds dualsExact (fun _ => rfl) shaped options work
    (Vector.replicate 2 0) with ⟨entries, evaluated, isMixed, _⟩
  refine ⟨entries, evaluated, ?_⟩
  rcases Prod.mk.inj shape with ⟨isRow, isColumn⟩
  rcases isMixed 0 0 (isRow ▸ Nat.one_pos) (isColumn ▸ Nat.one_pos) with ⟨values, value, computed, read, isValue⟩
  have computes := dualsExact.evaluate_eq (Tape.valid_of_validate square_validate) (by decide)
    (shaped_perturbed shaped 0 0 0) options (Vector.replicate 2 0)
  cases Except.ok.inj (computes.symm.trans computed)
  let moved : DualNumber (DualNumber ℚ) := inl (inl x) + firstEps + secondEps
  have isSquare : moved * moved = value := Except.ok.inj (.trans rfl read)
  rw [isValue, ← isSquare]
  simp [mixed, moved, firstEps, secondEps]
  norm_num

end Autodiff
