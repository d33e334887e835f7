import Autodiff.Proofs.Evaluator.SparsePacking

/-!
# Failing Jacobians

The point of a Jacobian is checked and evaluated by its sweeps only. A Jacobian that sweeps at least one direction
therefore fails exactly as evaluation does. One that has nothing to sweep, because the block that is seeded has no
entry, succeeds whatever the point is.
-/

namespace Autodiff

variable {cause : Error} {α β : Type}

/-! ## Sweeps -/

namespace Tape

variable {algebra : Algebra (Except Error) α} {tape : Tape} {point : List (List α)}
  {moved : Record α → Seed α → Seed α} {seeds : List (Seed α)}

/-- Reading the sensitivities of some seeds fails as the run does, if they can be read at all. -/
theorem sensitivitiesAt_bind_eq_error (nonempty : seeds ≠ []) {read : List (Seed α) → Except Error β}
    (reads : ∀ record, ∃ result, read (seeds.map (moved record)) = .ok result) :
    (tape.sensitivitiesAt algebra point moved seeds >>= read) = .error cause ↔
      tape.runAt algebra point = .error cause := by
  cases ran : tape.runAt algebra point with
  | error reason => rw [sensitivitiesAt_of_error ran nonempty, error_bind, Except.error.injEq,
      Except.error.injEq]
  | ok run =>
      rcases reads run.2 with ⟨result, read⟩
      rw [sensitivitiesAt_of_run ran, ok_bind, read]
      simp

theorem sensitivitiesAt_nil : tape.sensitivitiesAt algebra point moved [] = .ok [] := rfl

end Tape

/-! ## Dense Jacobians -/

namespace Session

variable {algebra : Algebra (Except Error) α} {one : α} {tape : Tape} {options : EvalOptions}
  {point : List (List α)} {moved : Record α → Seed α → Seed α} {iind : Fin tape.inputs.length}
  {oind : Fin tape.outputs.length}

theorem jacobianByColumns_eq_error (shaped : ∀ record seed, Shaped tape.outputs (moved record seed))
    (nonempty : (tape.inputs.get iind).slots ≠ []) :
    (fresh algebra one tape options).jacobianByColumns (tape.sweepAt algebra point tape.inputs moved)
        iind oind = .error cause ↔ tape.runAt algebra point = .error cause := by
  rw [jacobianByColumns_sweepAt, tape.block_input, ok_bind, tape.block_output, ok_bind]
  apply Tape.sensitivitiesAt_bind_eq_error
  · simpa using nonempty
  · intro record
    refine exists_mapM_iff.mpr fun row isRow => exists_mapM_iff.mpr fun column isColumn => ?_
    rcases List.mem_map.mp isColumn with ⟨seed, -, rfl⟩
    have ends : Ends (fun _ => False) _ ((moved record seed).entry oind row) :=
      (shaped record seed).ends_entry (List.getElem?_eq_getElem oind.isLt) (List.mem_range.mp isRow)
    rcases ends.exists_ok with ⟨entry, -, read⟩
    exact ⟨entry, read⟩

theorem jacobianByColumns_of_empty (empty : (tape.inputs.get iind).slots = []) :
    (fresh algebra one tape options).jacobianByColumns (tape.sweepAt algebra point tape.inputs moved)
        iind oind = .ok (List.replicate (tape.outputs.get oind).slots.length []) := by
  rw [jacobianByColumns_sweepAt, tape.block_input, ok_bind, tape.block_output, ok_bind, empty]
  simp only [List.length_nil, List.range_zero, List.map_nil, Tape.sensitivitiesAt_nil, ok_bind,
    List.mapM_nil, List.mapM_pure, List.map_const', List.length_range]
  rfl

theorem jacobianByRows_eq_error (shaped : ∀ record seed, Shaped tape.inputs (moved record seed))
    (nonempty : (tape.outputs.get oind).slots ≠ []) :
    (fresh algebra one tape options).jacobianByRows (tape.sweepAt algebra point tape.outputs moved)
        iind oind = .error cause ↔ tape.runAt algebra point = .error cause := by
  rw [jacobianByRows_sweepAt, tape.block_input, ok_bind, tape.block_output, ok_bind]
  apply Tape.sensitivitiesAt_bind_eq_error
  · simpa using nonempty
  · intro record
    refine exists_mapM_iff.mpr fun row isRow => ?_
    rcases List.mem_map.mp isRow with ⟨seed, -, rfl⟩
    have ends : Ends (fun _ => False) _ ((moved record seed).block iind) :=
      (shaped record seed).ends_seedBlock (List.getElem?_eq_getElem iind.isLt)
    rcases ends.exists_ok with ⟨entries, -, read⟩
    exact ⟨entries, read⟩

theorem jacobianByRows_of_empty (empty : (tape.outputs.get oind).slots = []) :
    (fresh algebra one tape options).jacobianByRows (tape.sweepAt algebra point tape.outputs moved)
        iind oind = .ok [] := by
  rw [jacobianByRows_sweepAt, tape.block_input, ok_bind, tape.block_output, ok_bind, empty]
  rfl

end Session

/-! ## Sparse Jacobians -/

namespace Tape.Valid

variable {tape : Tape} (valid : tape.Valid) {arithmetic : Arithmetic α}
  {algebra : Algebra (Except Error) α} {one : α} {options : EvalOptions} {point : List (List α)}

include valid

theorem exists_sweptColors {iind : Fin tape.inputs.length} {oind : Fin tape.outputs.length}
    (fewColumns : (tape.inputs.get iind).slots.length < 2 ^ 31)
    (fewRows : (tape.outputs.get oind).slots.length < 2 ^ 31) :
    ∃ colors, tape.sweptColors iind oind = .ok colors ∧ colors < 2 ^ 31 ∧
      (colors = 0 ↔ (tape.inputs.get iind).slots = [] ∨ (tape.outputs.get oind).slots = []) := by
  have small : 2 ^ 31 ≤ maxBuffer := by decide
  have inputFits := Nat.lt_of_lt_of_le fewColumns small
  have outputFits := Nat.lt_of_lt_of_le fewRows small
  rcases valid.bounded.exists_jacobianPattern iind oind with ⟨pattern, found, represents⟩
  rcases represents.exists_columnColoring outputFits with ⟨byColumn, columnsColored, -⟩
  rcases represents.exists_rowColoring outputFits inputFits with ⟨byRow, rowsColored, -⟩
  have swept := sweptColors_eq_ok.mpr
    ⟨pattern, byColumn, byRow, found, columnsColored, rowsColored, rfl⟩
  rcases valid.blocks_of_swept swept with ⟨input, output, isInput, isOutput, bounded, noColor⟩
  cases (List.getElem?_eq_getElem iind.isLt).symm.trans isInput
  cases (List.getElem?_eq_getElem oind.isLt).symm.trans isOutput
  have few := Nat.lt_of_le_of_lt (Nat.le_trans bounded (Nat.min_le_left ..)) fewColumns
  exact ⟨_, swept, few, noColor⟩

section Swept

variable {iind oind colors : Nat} (swept : tape.sweptColors iind oind = .ok colors)

include swept

theorem sparseJacobianAt_of_error (nonzero : colors ≠ 0) (fails : tape.runAt algebra point = .error cause) :
    tape.sparseJacobianAt arithmetic algebra one options point iind oind = .error cause := by
  rcases valid.exists_plan arithmetic algebra one swept with ⟨pattern, plan, -, rfl, equal⟩
  rw [equal, plan.perform_of_error fails (by simpa using nonzero)]
  rfl

theorem sparseJacobianAt_eq_error (nonzero : colors ≠ 0) (tiles : Tiles options.sweepWidth colors) :
    tape.sparseJacobianAt arithmetic algebra one options point iind oind = .error cause ↔
      tape.runAt algebra point = .error cause := by
  cases ran : tape.runAt algebra point with
  | error reason =>
      rw [valid.sparseJacobianAt_of_error swept nonzero ran, Except.error.injEq, Except.error.injEq]
  | ok run =>
      rcases valid.exists_plan arithmetic algebra one swept with ⟨pattern, plan, -, rfl, equal⟩
      rcases plan.exists_perform (.inr tiles) (.inr ⟨run, ran⟩) with ⟨values, performed, -⟩
      rw [equal, performed]
      exact ⟨nofun, nofun⟩

theorem sparseJacobianAt_of_zero (zero : colors = 0) :
    ∃ pattern, tape.jacobianPattern iind oind = .ok pattern ∧
      tape.sparseJacobianAt arithmetic algebra one options point iind oind = .ok (pattern, []) := by
  rcases valid.blocks_of_swept swept with ⟨input, output, isInput, isOutput, -, noColor⟩
  rcases valid.exists_plan arithmetic algebra one swept with ⟨pattern, plan, found, rfl, equal⟩
  rcases valid.exists_represents found with ⟨_, _, sameInput, sameOutput, represents⟩
  cases isInput.symm.trans sameInput
  cases isOutput.symm.trans sameOutput
  have unstored : pattern.positions = [] := by
    rw [List.eq_nil_iff_forall_not_mem]
    rintro ⟨row, column⟩ member
    have inside := represents.lt_of_stores ((represents.mem_iff row column).mp member)
    rcases noColor.mp zero with empty | empty <;> simp [empty] at inside
  rw [List.length_eq_zero_iff] at zero
  have performed : ∃ values, plan.perform algebra one tape options point = .ok values ∧ _ :=
    plan.exists_perform (.inl zero) (.inl zero)
  rcases performed with ⟨values, performed, counted⟩
  rw [unstored, List.length_nil, List.length_eq_zero_iff] at counted
  refine ⟨pattern, found, ?_⟩
  rw [equal, performed, counted]
  rfl

end Swept

end Tape.Valid

/-! ## Main result -/

/-- Both computations succeed, or both fail and for the same reason. -/
def FailsAs {γ : Type} (first : Except Error β) (second : Except Error γ) : Prop :=
  ∀ cause, first = .error cause ↔ second = .error cause

namespace Evaluator

section Numbers

variable [Scalar α] {tape : Tape} (valid : tape.Valid) {options : EvalOptions} {inputs : List (List α)}
  {iind : Fin tape.inputs.length} {oind : Fin tape.outputs.length} {evaluator : Evaluator α}
  (serves : Serves tape options (numbers options.domainPolicy) Scalar.one evaluator)

include valid serves

theorem failsAs_jacobianForward (nonempty : (tape.inputs.get iind).slots ≠ []) :
    FailsAs (evaluator.perform (jacobianForward inputs iind oind)).1
      (evaluator.perform (evaluate inputs)).1 := by
  have computes := numbers_computes α options.domainPolicy
  intro cause
  rw [(concludes_jacobianForward valid computes inputs iind oind).outcome serves,
    (concludes_evaluate valid computes inputs).outcome serves, Tape.map_runAt_eq_error]
  exact Session.jacobianByColumns_eq_error (fun _ _ => Seed.shaped_ofVector _) nonempty

theorem jacobianForward_of_empty (empty : (tape.inputs.get iind).slots = []) :
    (evaluator.perform (jacobianForward inputs iind oind)).1 =
      .ok (List.replicate (tape.outputs.get oind).slots.length []) := by
  rw [(concludes_jacobianForward valid (numbers_computes α _) inputs iind oind).outcome serves]
  exact Session.jacobianByColumns_of_empty empty

theorem failsAs_jacobianReverse (nonempty : (tape.outputs.get oind).slots ≠ []) :
    FailsAs (evaluator.perform (jacobianReverse inputs iind oind)).1
      (evaluator.perform (evaluate inputs)).1 := by
  have computes := numbers_computes α options.domainPolicy
  intro cause
  rw [(concludes_jacobianReverse valid computes inputs iind oind).outcome serves,
    (concludes_evaluate valid computes inputs).outcome serves, Tape.map_runAt_eq_error]
  exact Session.jacobianByRows_eq_error (fun _ _ => Seed.shaped_ofVector _) nonempty

theorem jacobianReverse_of_empty (empty : (tape.outputs.get oind).slots = []) :
    (evaluator.perform (jacobianReverse inputs iind oind)).1 = .ok [] := by
  rw [(concludes_jacobianReverse valid (numbers_computes α _) inputs iind oind).outcome serves]
  exact Session.jacobianByRows_of_empty empty

theorem jacobian_eq_side : (evaluator.perform (jacobian inputs iind oind)).1 =
    if (tape.inputs.get iind).slots.length ≤ (tape.outputs.get oind).slots.length
      then (evaluator.perform (jacobianForward inputs iind oind)).1
      else (evaluator.perform (jacobianReverse inputs iind oind)).1 := by
  have computes := numbers_computes α options.domainPolicy
  rw [(concludes_jacobian valid computes inputs iind oind).outcome serves,
    (concludes_jacobianForward valid computes inputs iind oind).outcome serves,
    (concludes_jacobianReverse valid computes inputs iind oind).outcome serves]
  change (tape.block .input iind >>= _) = _
  rw [tape.block_input, ok_bind]
  change (tape.block .output oind >>= _) = _
  rw [tape.block_output, ok_bind]

theorem failsAs_jacobian (hasColumn : (tape.inputs.get iind).slots ≠ [])
    (hasRow : (tape.outputs.get oind).slots ≠ []) :
    FailsAs (evaluator.perform (jacobian inputs iind oind)).1
      (evaluator.perform (evaluate inputs)).1 := by
  rw [jacobian_eq_side valid serves]
  split
  · exact failsAs_jacobianForward valid serves hasColumn
  · exact failsAs_jacobianReverse valid serves hasRow

/-- The side with fewer entries is seeded, so it is the one without entries if there is one. -/
theorem jacobian_of_empty
    (empty : (tape.inputs.get iind).slots = [] ∨ (tape.outputs.get oind).slots = []) :
    (evaluator.perform (jacobian inputs iind oind)).1 =
      .ok (List.replicate (tape.outputs.get oind).slots.length []) := by
  simp only [← List.length_eq_zero_iff] at empty
  rw [jacobian_eq_side valid serves]
  split
  next fewer =>
    have noColumn : (tape.inputs.get iind).slots.length = 0 := by omega
    exact jacobianForward_of_empty valid serves (List.length_eq_zero_iff.mp noColumn)
  next more =>
    have noRow : (tape.outputs.get oind).slots.length = 0 := by omega
    rw [jacobianReverse_of_empty valid serves (List.length_eq_zero_iff.mp noRow), noRow]
    rfl

section Sparse

variable (fewColumns : (tape.inputs.get iind).slots.length < 2 ^ 31)
  (fewRows : (tape.outputs.get oind).slots.length < 2 ^ 31)

include fewColumns fewRows

theorem sparseJacobian_of_error (hasColumn : (tape.inputs.get iind).slots ≠ [])
    (hasRow : (tape.outputs.get oind).slots ≠ []) (fails : (evaluator.perform (evaluate inputs)).1 = .error cause) :
    (evaluator.perform (sparseJacobian inputs iind oind)).1 = .error cause := by
  have computes := numbers_computes α options.domainPolicy
  rcases valid.exists_sweptColors fewColumns fewRows with ⟨colors, swept, -, noColor⟩
  rw [(concludes_evaluate valid computes inputs).outcome serves, Tape.map_runAt_eq_error] at fails
  rw [outcome_sparseJacobian valid computes inputs iind oind serves]
  exact valid.sparseJacobianAt_of_error swept (fun zero => (noColor.mp zero).elim hasColumn hasRow) fails

theorem failsAs_sparseJacobian (hasColumn : (tape.inputs.get iind).slots ≠ [])
    (hasRow : (tape.outputs.get oind).slots ≠ [])
    (indivisible : 2 ^ 32 ∣ options.directionsPerSweep → options.directionsPerSweep = 0) :
    FailsAs (evaluator.perform (sparseJacobian inputs iind oind)).1
      (evaluator.perform (evaluate inputs)).1 := by
  have computes := numbers_computes α options.domainPolicy
  intro cause
  rcases valid.exists_sweptColors fewColumns fewRows with ⟨colors, swept, few, noColor⟩
  rw [(concludes_evaluate valid computes inputs).outcome serves, Tape.map_runAt_eq_error,
    outcome_sparseJacobian valid computes inputs iind oind serves]
  exact valid.sparseJacobianAt_eq_error swept (fun zero => (noColor.mp zero).elim hasColumn hasRow)
    (EvalOptions.tiles indivisible few)

theorem sparseJacobian_of_empty
    (empty : (tape.inputs.get iind).slots = [] ∨ (tape.outputs.get oind).slots = []) :
    ∃ pattern, tape.jacobianPattern iind oind = .ok pattern ∧
      (evaluator.perform (sparseJacobian inputs iind oind)).1 = .ok (pattern, []) := by
  rcases valid.exists_sweptColors fewColumns fewRows with ⟨colors, swept, -, noColor⟩
  rw [outcome_sparseJacobian valid (numbers_computes α _) inputs iind oind serves]
  exact valid.sparseJacobianAt_of_zero swept (noColor.mpr empty)

end Sparse

end Numbers

end Evaluator

/-- On a valid tape, a Jacobian that has something to sweep fails exactly as evaluation at the same point does, which
is for a number of blocks, a length of a block or a domain: the Jacobian by columns if the input block has entries,
the one by rows if the output block has, the dense and the sparse one if both have. The sparse one also
needs sweeps with a direction, unless the point is rejected. With nothing to sweep every point is taken. -/
theorem Evaluator.jacobians_fail_as_evaluate [Scalar α] {tape : Tape} (checked : tape.validate = .ok ())
    (options : EvalOptions) (history : List (Call α)) (inputs : List (List α))
    (iind : Fin tape.inputs.length) (oind : Fin tape.outputs.length) :
    let evaluator := (new tape options).after history
    let evaluated := (evaluator.perform (evaluate inputs)).1
    let forward := (evaluator.perform (jacobianForward inputs iind oind)).1
    let reverse := (evaluator.perform (jacobianReverse inputs iind oind)).1
    let dense := (evaluator.perform (jacobian inputs iind oind)).1
    let sparse := (evaluator.perform (sparseJacobian inputs iind oind)).1
    let columns := (tape.inputs.get iind).slots
    let rows := (tape.outputs.get oind).slots
    Ends Error.IsRejection (fun _ => True) evaluated ∧
    (columns ≠ [] → FailsAs forward evaluated) ∧
    (columns = [] → forward = .ok (List.replicate rows.length [])) ∧
    (rows ≠ [] → FailsAs reverse evaluated) ∧
    (rows = [] → reverse = .ok []) ∧
    (columns ≠ [] → rows ≠ [] → FailsAs dense evaluated) ∧
    (columns = [] ∨ rows = [] → dense = .ok (List.replicate rows.length [])) ∧
    (columns.length < 2 ^ 31 → rows.length < 2 ^ 31 →
      (columns ≠ [] → rows ≠ [] → (∀ cause, evaluated = .error cause → sparse = .error cause) ∧
        ((2 ^ 32 ∣ options.directionsPerSweep → options.directionsPerSweep = 0) →
          FailsAs sparse evaluated)) ∧
      (columns = [] ∨ rows = [] →
        ∃ pattern, tape.jacobianPattern iind oind = .ok pattern ∧ sparse = .ok (pattern, []))) := by
  have valid := Tape.valid_of_validate checked
  have serves := serves_after_new valid options history
  have computes := numbers_computes α options.domainPolicy
  refine ⟨?_, failsAs_jacobianForward valid serves, jacobianForward_of_empty valid serves,
    failsAs_jacobianReverse valid serves, jacobianReverse_of_empty valid serves,
    failsAs_jacobian valid serves, jacobian_of_empty valid serves, fun fewColumns fewRows => ⟨?_, ?_⟩⟩
  · rw [(concludes_evaluate valid computes inputs).outcome serves, map_eq_pure_bind]
    exact (valid.ends_runAt (numbers_guards .domain _) (fun _ => id) inputs).bind fun _ _ => trivial
  · exact fun hasColumn hasRow =>
      ⟨fun _ => sparseJacobian_of_error valid serves fewColumns fewRows hasColumn hasRow,
        failsAs_sparseJacobian valid serves fewColumns fewRows hasColumn hasRow⟩
  · exact sparseJacobian_of_empty valid serves fewColumns fewRows

/-- An overflow is a rejection of the square and of its Jacobians, the sparse one included. -/
theorem inPlaceSquare_fails_as_evaluate :
    let strict : Evaluator Float := .new inPlaceSquare { domainPolicy := .reject }
    let overflow : Error := .evaluation (.domain 0 (.unary .sq))
    inPlaceSquare.validate = .ok () ∧
    (strict.perform (Evaluator.evaluate [[1e200]])).1 = .error overflow ∧
    (strict.perform (Evaluator.jacobianForward [[1e200]] 0 0)).1 = .error overflow ∧
    (strict.perform (Evaluator.jacobian [[1e200]] 0 0)).1 = .error overflow ∧
    (strict.perform (Evaluator.sparseJacobian [[1e200]] 0 0)).1 = .error overflow := by
  have alike := Evaluator.jacobians_fail_as_evaluate inPlaceSquare_validate { domainPolicy := .reject } []
    [[(1e200 : Float)]] ⟨0, by decide⟩ ⟨0, by decide⟩
  have evaluated : ((Evaluator.new inPlaceSquare { domainPolicy := .reject } : Evaluator Float).perform
      (Evaluator.evaluate [[1e200]])).1 = .error (.evaluation (.domain 0 (.unary .sq))) := by
    decide +kernel
  rcases alike with ⟨-, forward, -, -, -, dense, -, sparse⟩
  refine ⟨inPlaceSquare_validate, evaluated, (forward (by decide) _).mpr evaluated,
    (dense (by decide) (by decide) _).mpr evaluated, ?_⟩
  exact ((sparse (by decide) (by decide)).1 (by decide) (by decide)).1 _ evaluated

/-- A tape with a constant output and an input block that stores no entry. -/
def constantOutput : Tape :=
  ⟨[⟨.const, 0, unusedOperand, unusedOperand, 1⟩], 1, [⟨"x", ⟨1, [[]]⟩, []⟩], [⟨"y", .scalar, [0]⟩]⟩

theorem constantOutput_validate : constantOutput.validate = .ok () := by
  simp [constantOutput, Tape.validate, Tape.checkInputs, Tape.checkSlotCount, Tape.checkInputSlots,
    Tape.checkInstructions, Tape.checkOutputs, Instruction.spareOperands, Instruction.operands,
    Pattern.nnz, Pattern.scalar]

/-- A point without blocks is refused by evaluation and by the Jacobian by rows, but not by the one by
columns. -/
theorem constantOutput_unchecked :
    let evaluator : Evaluator Float := .new constantOutput {}
    let refused : Error := .evaluation (.inputCount 1 0)
    constantOutput.validate = .ok () ∧ (evaluator.perform (Evaluator.evaluate [])).1 = .error refused ∧
    (evaluator.perform (Evaluator.jacobianReverse [] 0 0)).1 = .error refused ∧
    (evaluator.perform (Evaluator.jacobianForward [] 0 0)).1 = .ok [[]] := by
  refine ⟨constantOutput_validate, ?_, ?_, ?_⟩ <;> decide +kernel

end Autodiff
