import Autodiff.Proofs.Lowering.BuiltTapes
import Autodiff.Proofs.Tape.Acceptance

/-!
# Built tapes pass validation

Built tapes are valid, so what is left is bookkeeping. Emission marks the operand fields that an instruction does
not read, and neither pruning nor slot assignment touches them. An output has a slot for every stored entry,
because its slots hold the entries of the matrix that it denotes, whatever the opcodes mean. No stage takes more
slots than there are emitted values.
-/

namespace Autodiff

theorem Instruction.SparesUnused.renames {instruction renamed : Instruction}
    (spare : instruction.SparesUnused) (renames : instruction.Renames renamed) : renamed.SparesUnused := by
  rcases renames with ⟨rename, out, rfl⟩
  rcases instruction with ⟨op, result, fst, snd, literal⟩
  cases op <;> exact spare

/-- The results of a program are numbered on from its inputs, and it names only values that exist by then. -/
structure InOrder (numInputs : Nat) (instructions : List Instruction) (outputs : List (List Nat)) : Prop where
  numbered : Numbered numInputs instructions
  outputs : ∀ block ∈ outputs, ∀ value ∈ block, value < numInputs + instructions.length

/-! ## Emitted instructions -/

def Emission.SparesUnused (emission : Emission) : Prop :=
  ∀ instruction ∈ emission.instructions, instruction.SparesUnused

namespace EmitM

/-- A computation that succeeds keeps a property of what has been emitted. -/
def Preserves {α : Type} (invariant : Emission → Prop) (emit : EmitM α) : Prop :=
  ∀ ⦃before result after⦄, emit.run before = .ok (result, after) → invariant before → invariant after

namespace Preserves

variable {α β : Type} {invariant : Emission → Prop}

theorem pure (value : α) : Preserves invariant (pure value) := by
  intro before result after ran holds
  rcases run_pure_eq_ok.mp ran with ⟨_, rfl⟩
  exact holds

theorem throw (cause : Error) : Preserves invariant (throw cause : EmitM α) :=
  fun _ _ _ ran => absurd ran run_throw_ne_ok

theorem bind {first : EmitM α} {next : α → EmitM β} (start : Preserves invariant first)
    (continued : ∀ value, Preserves invariant (next value)) : Preserves invariant (first >>= next) := by
  intro before result after ran holds
  rcases run_bind_eq_ok.mp ran with ⟨value, middle, firstRan, nextRan⟩
  exact continued value nextRan (start firstRan holds)

theorem lift_bind {first : Except Error α} {next : α → EmitM β}
    (continued : ∀ value, Preserves invariant (next value)) :
    Preserves invariant (liftM first >>= next) := by
  intro before result after ran holds
  rcases run_bind_eq_ok.mp ran with ⟨value, middle, firstRan, nextRan⟩
  rcases run_lift_eq_ok.mp firstRan with ⟨_, rfl⟩
  exact continued value nextRan holds

theorem get_bind {next : Emission → EmitM β} (continued : ∀ emission, Preserves invariant (next emission)) :
    Preserves invariant (get >>= next) := by
  intro before result after ran holds
  rcases run_bind_eq_ok.mp ran with ⟨current, middle, got, nextRan⟩
  rcases run_get_eq_ok.mp got with ⟨_, rfl⟩
  exact continued current nextRan holds

theorem modifyGet {update : Emission → α × Emission}
    (keeps : ∀ emission, invariant emission → invariant (update emission).2) :
    Preserves invariant (modifyGet update : EmitM α) := by
  intro before result after ran holds
  have updated := run_modifyGet_eq_ok.mp ran
  exact (congrArg (invariant ·.2) updated).mp (keeps before holds)

theorem mapM {elements : List α} {emit : α → EmitM β}
    (each : ∀ element, Preserves invariant (emit element)) :
    Preserves invariant (elements.mapM emit) := by
  induction elements with
  | nil => exact .pure []
  | cons element elements ih =>
      rw [List.mapM_cons]
      exact (each element).bind fun _ => ih.bind fun _ => .pure _

theorem forM {elements : List α} {emit : α → EmitM PUnit}
    (each : ∀ element, Preserves invariant (emit element)) :
    Preserves invariant (elements.forM emit) := by
  induction elements with
  | nil => exact .pure _
  | cons element elements ih => exact (each element).bind fun _ => ih

end Preserves

/-- Every instruction that can be emitted keeps a property, which is not about the values of nodes. -/
structure Maintains (share : Bool) (invariant : Emission → Prop) : Prop where
  constant : ∀ ⦃emission⦄, invariant emission → ∀ literal, invariant (emission.constant share literal).2
  unary : ∀ ⦃emission⦄, invariant emission → ∀ op value,
    invariant (emission.operation share (.unary op) value unusedOperand).2
  binary : ∀ ⦃emission⦄, invariant emission → ∀ op first second,
    invariant (emission.operation share (.binary op) first second).2
  store : ∀ ⦃emission⦄, invariant emission → ∀ values, invariant { emission with values }

theorem preserves_stored (handle : Handle) (index : Nat) {invariant : Emission → Prop} :
    Preserves invariant (stored handle index) := by
  refine .get_bind fun emission => ?_
  split
  · exact .pure _
  · exact .throw _

namespace Maintains

variable {share : Bool} {invariant : Emission → Prop} (maintains : Maintains share invariant) (graph : Graph)
include maintains

theorem element (operand : Handle) (row column : Nat) :
    Preserves invariant (element graph share operand row column) := by
  refine .lift_bind fun entry => ?_
  split
  · exact preserves_stored operand _
  · exact .modifyGet fun _ holds => maintains.constant holds 0

theorem lowerNode (handle : Handle) (pattern : Pattern) (node : Node) :
    Preserves invariant (lowerNode graph share handle pattern node) := by
  cases node with
  | symbol index => exact .throw _
  | constant literal => exact .bind (.modifyGet fun _ holds => maintains.constant holds literal) fun _ => .pure _
  | zeros nrow ncol => exact .pure _
  | unary op operand =>
      refine .mapM fun position => (maintains.element graph ..).bind fun value => ?_
      exact .modifyGet fun _ holds => maintains.unary holds op value
  | binary op lhs rhs =>
      refine .mapM fun position => (maintains.element graph ..).bind fun first =>
        (maintains.element graph ..).bind fun second => ?_
      exact .modifyGet fun _ holds => maintains.binary holds op first second
  | concat kind parts =>
      refine .lift_bind fun entries => .lift_bind fun sources => .mapM fun source => ?_
      split
      · exact preserves_stored _ _
      · exact .throw _
  | transpose operand =>
      exact .lift_bind fun entry => .lift_bind fun sources => .mapM fun index => preserves_stored _ _
  | nonzero operand index => exact (preserves_stored _ _).bind fun _ => .pure _

theorem visit (handle : Handle) : Preserves invariant (visit graph share handle) := by
  refine .get_bind fun emission => ?_
  split
  · refine .bind (.lift_bind fun entry => maintains.lowerNode graph ..) fun values => ?_
    exact .modifyGet fun _ holds => maintains.store holds _
  · exact .pure _

theorem emitAll {inputs outputs : List Handle} {blocks : List Block} {values : List (List Nat)}
    {emission : Emission} (bare : ∀ ⦃emission⦄, Graph.Bare emission → invariant emission)
    (ran : (graph.emitAll share inputs outputs).run { values := Array.replicate graph.size none } =
      .ok ((blocks, values), emission)) : invariant emission := by
  rcases run_bind_eq_ok.mp ran with ⟨declared, start, declareRan, ran⟩
  have later : Preserves invariant (do
      (outputs.forM graph.check : Except Error PUnit)
      let order ← graph.postOrder outputs
      order.forM (EmitM.visit graph share)
      let emission ← get
      return (declared, outputs.map fun output => (emission.lowered output).toList)) :=
    .lift_bind fun _ => .lift_bind fun order => .bind (.forM (maintains.visit graph)) fun _ =>
      .get_bind fun _ => .pure _
  exact later ran (bare (Graph.declareInputs_spec ⟨rfl, rfl, rfl⟩ declareRan).bare)

end Maintains

end EmitM

namespace Emission

variable {emission : Emission}

theorem SparesUnused.push (spare : emission.SparesUnused) {instruction : Instruction}
    (isSpare : instruction.SparesUnused) (constants : Std.HashMap UInt64 Nat)
    (operations : Std.HashMap (Opcode × Nat × Nat) Nat) :
    SparesUnused { emission with
      instructions := emission.instructions.push instruction
      constants
      operations } := by
  simp only [SparesUnused, Array.mem_push, or_imp, forall_and, forall_eq]
  exact ⟨spare, isSpare⟩

theorem SparesUnused.sortedOperation (spare : emission.SparesUnused) (share : Bool) {op : Opcode}
    {first second : Nat} (isSpare : ∀ out, (⟨op, out, first, second, 0⟩ : Instruction).SparesUnused) :
    (emission.sortedOperation share op first second).2.SparesUnused := by
  unfold Emission.sortedOperation
  split
  · exact spare
  · exact spare.push (isSpare _) _ _

theorem maintains_sparesUnused (share : Bool) : EmitM.Maintains share SparesUnused where
  constant emission spare literal := by
    unfold constant
    split
    · exact spare
    · refine spare.push ?_ _ _
      simp [Instruction.SparesUnused, Instruction.spareOperands]
  unary emission spare op value := by
    have isSpare : ∀ out, (⟨.unary op, out, value, unusedOperand, 0⟩ : Instruction).SparesUnused := by
      simp [Instruction.SparesUnused, Instruction.spareOperands]
    simp only [operation, Opcode.isCommutative, Bool.false_and, Bool.false_eq_true, if_false]
    exact spare.sortedOperation share isSpare
  binary emission spare op first second := by
    have isSpare : ∀ left right out, (⟨.binary op, out, left, right, 0⟩ : Instruction).SparesUnused := by
      simp [Instruction.SparesUnused, Instruction.spareOperands]
    unfold operation
    split
    · exact spare.sortedOperation share (isSpare _ _)
    · exact spare.sortedOperation share (isSpare _ _)
  store emission spare values := spare

end Emission

namespace Graph

variable {graph : Graph} {inputs outputs : List Handle} {options : BuildOptions} {tape : Tape}

theorem emitAll_sparesUnused {share : Bool} {blocks : List Block} {values : List (List Nat)}
    {emission : Emission}
    (ran : (graph.emitAll share inputs outputs).run { values := Array.replicate graph.size none } =
      .ok ((blocks, values), emission)) : emission.SparesUnused := by
  refine (Emission.maintains_sparesUnused share).emitAll graph (fun emission bare => ?_) ran
  simp [Emission.SparesUnused, bare.instructions]

/-! ## The stages of a build -/

/-- The problem as a program over values, before dead instructions are dropped: the number of entries of the
inputs, the instructions and the values of the outputs. -/
def program (graph : Graph) (share : Bool) (inputs outputs : List Handle) :
    Except Error (Nat × List Instruction × List (List Nat)) := do
  let ((_, values), emission) ← (graph.emitAll share inputs outputs).run
    { values := Array.replicate graph.size none }
  return (emission.numInputs, emission.instructions.toList, values)

def numValues (graph : Graph) (share : Bool) (inputs outputs : List Handle) : Nat :=
  match graph.program share inputs outputs with
  | .ok (numInputs, instructions, _) => numInputs + instructions.length
  | .error _ => 0

theorem build_stages (built : graph.build options inputs outputs = .ok tape) :
    ∃ numInputs instructions values,
      graph.program options.shareValues inputs outputs = .ok (numInputs, instructions, values) ∧
      InOrder numInputs instructions values ∧
      InOrder numInputs (prune numInputs instructions values).1 (prune numInputs instructions values).2 ∧
      (∀ instruction ∈ instructions, instruction.SparesUnused) ∧
      (tape.inputs.flatMap Block.slots = List.range numInputs ∧ tape.numInputNonzeros = numInputs) ∧
      List.Forall₂ Instruction.Renames (prune numInputs instructions values).1 tape.instructions ∧
      tape.numSlots ≤ numInputs + (prune numInputs instructions values).1.length ∧
      List.Forall₂ (fun output block => graph.pattern output = .ok block.pattern) outputs tape.outputs := by
  rcases bind_eq_ok.mp built with ⟨⟨⟨blocks, values⟩, emission⟩, ran, built⟩
  rcases bind_eq_ok.mp built with ⟨outputBlocks, found, returned⟩
  cases returned
  have emitted := (emitAll_emitted ran).1
  rcases prune_pruned emitted.accounts.consistent.numbered emitted.outputs_lt with ⟨live, number, pruned⟩
  rcases assignSlots_renames options.reuseSlots emission.numInputs
    (prune emission.numInputs emission.instructions.toList values).1
    (prune emission.numInputs emission.instructions.toList values).2 with ⟨renames, slotsFit⟩
  refine ⟨emission.numInputs, emission.instructions.toList, values, ?_,
    ⟨emitted.accounts.consistent.numbered, emitted.outputs_lt⟩, ⟨pruned.numbered, pruned.outputs_lt⟩, ?_,
    ⟨emitted.inputSlots, emitted.numInputs_eq.symm⟩, renames, slotsFit, ?_⟩
  · rw [program, ran]
    rfl
  · intro instruction member
    exact emitAll_sparesUnused ran instruction (Array.mem_toList_iff.mp member)
  · have slotsOf : ∃ slots : Handle → List Nat, (assignSlots options.reuseSlots emission.numInputs
        (prune emission.numInputs emission.instructions.toList values).1
        (prune emission.numInputs emission.instructions.toList values).2).outputs = outputs.map slots := by
      rw [pruned.outputs_eq, emitted.values_eq, List.map_map]
      cases options.reuseSlots with
      | false => exact ⟨_, rfl⟩
      | true => exact ⟨_, List.map_map⟩
    rcases slotsOf with ⟨slots, slotsEq⟩
    have foundFor : graph.outputBlocks 0 outputs (outputs.map slots) = .ok outputBlocks := slotsEq ▸ found
    exact (outputBlocks_eq_ok foundFor).imp fun _ _ => And.left

/-! ## Built tapes -/

/-- The opcodes over a type with a single element, where nothing but the number of entries shows. -/
def onePoint : Interpretation Unit where
  literal _ := ()
  unary _ _ := ()
  binary _ _ _ := ()
  literal_zero := rfl
  commutes _ _ _ _ := rfl
  preserves _ _ := rfl
  zeroRule op := by cases op.zeroRule <;> simp [ZeroRule.Holds]

/-- A block has the pattern of a node and one slot per stored entry. -/
def Carries (graph : Graph) (handle : Handle) (block : Block) : Prop :=
  graph.pattern handle = .ok block.pattern ∧ block.Counted

theorem WellFormed.build_carries (wellFormed : graph.WellFormed)
    (built : graph.build options inputs outputs = .ok tape) :
    List.Forall₂ graph.Carries inputs tape.inputs ∧ List.Forall₂ graph.Carries outputs tape.outputs := by
  have inputsCarried := (build_valid built).2
  refine ⟨inputsCarried, ?_⟩
  let point : List (List Unit) := tape.inputs.map fun block => block.slots.map fun _ => ()
  have fits : List.Forall₂ graph.Fits inputs point := by
    refine List.forall₂_map_right_iff.mpr (inputsCarried.imp ?_)
    rintro input block ⟨known, counted⟩
    exact ⟨block.pattern, known, by rw [List.length_map, counted]⟩
  have loaded : List.Forall₂ (fun block entries => block.slots.map (fun _ => ()) = entries) tape.inputs point :=
    List.forall₂_map_right_iff.mpr (List.forall₂_same.mpr fun _ _ => rfl)
  have held := wellFormed.build_holds built onePoint fits fun _ member =>
    (List.forall₂_iff_zip.mp loaded).2 member
  rcases build_stages built with ⟨_, _, _, _, _, _, _, _, _, _, known⟩
  rw [List.forall₂_iff_zip] at known held ⊢
  refine ⟨known.1, fun {output block} member => ⟨known.2 member, ?_⟩⟩
  rcases held.2 member with ⟨pattern, isKnown, entries⟩
  cases (known.2 member).symm.trans isKnown
  have counted := entries.length_eq
  rw [Pattern.length_positions, List.length_map] at counted
  exact counted.symm

/-- A built tape passes validation if its values can be addressed. -/
theorem WellFormed.build_validate_eq_ok (wellFormed : graph.WellFormed)
    (built : graph.build options inputs outputs = .ok tape)
    (addressable : graph.numValues options.shareValues inputs outputs < 1 <<< 63) :
    tape.validate = .ok () := by
  rcases wellFormed.build_carries built with ⟨inputsCarried, outputsCarried⟩
  rcases build_stages built with ⟨numInputs, instructions, values, isProgram, _, _, spare, _, renames, fits, _⟩
  rcases prune_renames numInputs instructions values with ⟨chosen, sublist, kept⟩
  have countedOf : ∀ {handles : List Handle} {blocks : List Block},
      List.Forall₂ graph.Carries handles blocks → ∀ block ∈ blocks, block.Counted := by
    intro handles blocks carried block member
    rcases exists_related carried.flip member with ⟨_, _, carries⟩
    exact carries.2
  refine (build_valid built).1.validate_eq_ok (countedOf inputsCarried) (countedOf outputsCarried) ?_ ?_
  · intro assigned member
    rcases exists_related renames.flip member with ⟨pruned, isPruned, assignedOf⟩
    rcases exists_related kept.flip isPruned with ⟨instruction, isChosen, prunedOf⟩
    exact ((spare instruction (sublist.subset isChosen)).renames prunedOf).renames assignedOf
  · have length := sublist.length_le
    rw [kept.length_eq] at length
    simp only [numValues, isProgram] at addressable
    omega

end Graph

end Autodiff
