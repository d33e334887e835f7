import Autodiff.Proofs.Evaluator.Packing
import Autodiff.Proofs.Session.SparseJacobian

/-!
# Packed colors

A sparse Jacobian seeds the side that needs fewer colors (`Tape.sweptColors`) and packs the colors into sweeps whose
width is kept in 32 bits. If these sweeps tile the colors, the packing does not show. It does show where they do not:
a width of zero leaves all colors to be swept after every sweep, for ever, and the end of a sweep that
cannot be counted in 32 bits stops the call.
-/

namespace Autodiff

variable {α : Type}

/-! ## Sweeps over colors -/

theorem Tape.sweepAt_of_run {algebra : Algebra (Except Error) α} {tape : Tape} {point : List (List α)}
    {blocks : List Block} {moved : Record α → Seed α → Seed α} {seeds : List (Seed α)}
    {run : List (List α) × Record α} (ran : tape.runAt algebra point = .ok run)
    (shaped : ∀ seed ∈ seeds, Session.Shaped blocks seed) :
    tape.sweepAt algebra point blocks moved seeds = .ok ⟨run.1, seeds.map (moved run.2)⟩ := by
  rw [sweepAt_of_shaped shaped, ran]
  rfl

namespace Session

variable (session : Session α) {algebra : Algebra (Except Error) α} {tape : Tape}
  {point : List (List α)} {blocks : List Block} {moved : Record α → Seed α → Seed α}
  {seeds : List (Seed α)}

/-- Sweeps that tile the colors, or that fail anyway, find what one run finds. -/
theorem sweepColors_sweepAt (shaped : ∀ seed ∈ seeds, Shaped blocks seed)
    (fits : seeds = [] ∨ Tiles session.options.sweepWidth seeds.length ∨
      ∃ cause, tape.runAt algebra point = .error cause) :
    session.sweepColors (tape.sweepAt algebra point blocks moved) seeds =
      tape.sensitivitiesAt algebra point moved seeds := by
  rcases fits with rfl | tiles | ⟨cause, fails⟩
  · rw [sweepColors, ColorSweeps.run_of_isEmpty rfl]
    rfl
  · rw [sweepColors_eq_packed session _ tiles, Tape.packed_sweepAt shaped]
  · cases seeds with
    | nil =>
        rw [sweepColors, ColorSweeps.run_of_isEmpty rfl]
        rfl
    | cons seed others =>
        have counted : 0 + session.options.sweepWidth < 2 ^ 32 := by
          rw [Nat.zero_add]
          exact session.options.sweepWidth_lt
        rw [sweepColors, ColorSweeps.run, if_neg (by simp), ColorSweeps.step_of_lt counted,
          Tape.sweepAt_of_shaped fun seed member => shaped seed (List.mem_of_mem_take member),
          Tape.sensitivitiesAt, fails]
        rfl

section Stalled

variable {run : List (List α) × Record α} (ran : tape.runAt algebra point = .ok run)

include ran

theorem sweepColors_noProgress (unfinished : seeds ≠ []) (stalls : session.options.sweepWidth = 0) :
    session.sweepColors (tape.sweepAt algebra point blocks moved) seeds =
      .error (.violation .noProgress) := by
  rw [sweepColors, stalls]
  apply ColorSweeps.run_zero
  · exact Tape.sweepAt_of_run ran (by simp)
  · exact Nat.two_pow_pos 32
  · exact unfinished

theorem sweepColors_sizeOverflow (shaped : ∀ seed ∈ seeds, Shaped blocks seed)
    (positive : 0 < session.options.sweepWidth)
    (exceeds : ¬ Tiles session.options.sweepWidth seeds.length) :
    session.sweepColors (tape.sweepAt algebra point blocks moved) seeds =
      .error (.violation .sizeOverflow) := by
  simp only [Tiles, positive, true_and, not_forall, Nat.not_lt] at exceeds
  rcases exceeds with ⟨before, inside, exceeds⟩
  have succeeds (piece : List (Seed α)) (within : ∀ seed ∈ piece, seed ∈ seeds) :
      tape.sweepAt algebra point blocks moved piece = .ok ⟨run.1, piece.map (moved run.2)⟩ :=
    Tape.sweepAt_of_run ran fun seed member => shaped seed (within seed member)
  exact ColorSweeps.run_eq_sizeOverflow positive succeeds inside (by simpa using exceeds)

end Stalled

end Session

/-! ## Plans -/

theorem ends_directionEntry {found : List (Seed α)} {blocks : List Block}
    (shaped : ∀ seed ∈ found, Session.Shaped blocks seed) {direction index number : Nat}
    (inside : direction < found.length) {block : Block} (isBlock : blocks[index]? = some block)
    (isEntry : number < block.slots.length) :
    Ends (fun _ => False) (fun _ => True) (directionEntry found direction index number) := by
  rw [directionEntry, List.getElem?_eq_getElem inside]
  exact (shaped _ (List.getElem_mem inside)).ends_entry isBlock isEntry

/-- The seeds of all colors, how partials move them to the other side, and how some entries are read there. -/
structure ColorPlan (α : Type) (entries : Nat) where
  blocks : List Block
  seeds : List (Seed α)
  moved : Record α → Seed α → Seed α
  read : List (Seed α) → Except Error (List α)
  shaped : ∀ seed ∈ seeds, Session.Shaped blocks seed
  reads : ∀ record, ∃ values, read (seeds.map (moved record)) = .ok values ∧ values.length = entries

namespace ColorPlan

/-- The plan for the colors of the lines of one block, whose entries are read across another block. -/
def ofColoring (zero one : α) (blocks : List Block) (index : Nat) (coloring : Pattern.Coloring)
    (moved : Record α → Seed α → Seed α) {others : List Block} {other : Nat} {block : Block}
    (isOther : others[other]? = some block)
    (shaped : ∀ record seed, Session.Shaped others (moved record seed))
    (positions : List (Nat × Nat)) (line across : Nat × Nat → Nat)
    (inside : ∀ position ∈ positions, coloring.colors.getD (line position) 0 < coloring.count ∧
      across position < block.slots.length) : ColorPlan α positions.length where
  blocks := blocks
  seeds := (Session.colorClasses coloring).map (unitSeed zero one blocks index)
  moved := moved
  read found := positions.mapM fun position =>
    directionEntry found (coloring.colors.getD (line position) 0) other (across position)
  shaped seed member := by
    rcases List.mem_map.mp member with ⟨_, -, rfl⟩
    exact Seed.shaped_unitSeed ..
  reads record := by
    let found := ((Session.colorClasses coloring).map (unitSeed zero one blocks index)).map (moved record)
    have isShaped : ∀ seed ∈ found, Session.Shaped others seed := by
      intro seed isFound
      rcases List.mem_map.mp isFound with ⟨_, -, rfl⟩
      exact shaped ..
    have each (position : Nat × Nat) (member : position ∈ positions) :=
      ends_directionEntry isShaped (by simpa [found] using (inside position member).1) isOther
        (inside position member).2
    rcases (Ends.mapM_all each).exists_ok with ⟨values, ⟨length, -⟩, read⟩
    exact ⟨values, read, length⟩

variable {entries : Nat} (plan : ColorPlan α entries)

def perform (algebra : Algebra (Except Error) α) (one : α) (tape : Tape) (options : EvalOptions)
    (point : List (List α)) : Except Error (List α) := do
  let found ← (Session.fresh algebra one tape options).sweepColors
    (tape.sweepAt algebra point plan.blocks plan.moved) plan.seeds
  plan.read found

variable {algebra : Algebra (Except Error) α} {one : α} {tape : Tape} {options : EvalOptions}
  {point : List (List α)}

theorem perform_of_fits (fits : plan.seeds = [] ∨ Tiles options.sweepWidth plan.seeds.length ∨
      ∃ cause, tape.runAt algebra point = .error cause) :
    plan.perform algebra one tape options point = (do
      let found ← tape.sensitivitiesAt algebra point plan.moved plan.seeds
      plan.read found) := by
  rw [perform, Session.sweepColors_sweepAt _ plan.shaped fits]

/-- A plan without colors needs no run, and one whose sweeps tile the colors ends as the run does. -/
theorem exists_perform (fits : plan.seeds = [] ∨ Tiles options.sweepWidth plan.seeds.length)
    (succeeds : plan.seeds = [] ∨ ∃ run, tape.runAt algebra point = .ok run) :
    ∃ values, plan.perform algebra one tape options point = .ok values ∧ values.length = entries := by
  rw [plan.perform_of_fits (fits.imp_right .inl)]
  rcases succeeds with none | ⟨run, ran⟩
  · have read := plan.reads []
    simp only [none, List.map_nil] at read
    rwa [none]
  · rw [Tape.sensitivitiesAt_of_run ran]
    exact plan.reads run.2

theorem perform_of_error {cause : Error} (fails : tape.runAt algebra point = .error cause)
    (nonempty : plan.seeds ≠ []) :
    plan.perform algebra one tape options point = .error cause := by
  rw [plan.perform_of_fits (.inr (.inr ⟨cause, fails⟩)),
    Tape.sensitivitiesAt_of_error fails nonempty]
  rfl

theorem perform_noProgress {run : List (List α) × Record α}
    (ran : tape.runAt algebra point = .ok run) (unfinished : plan.seeds ≠ [])
    (stalls : options.sweepWidth = 0) :
    plan.perform algebra one tape options point = .error (.violation .noProgress) := by
  rw [perform, Session.sweepColors_noProgress _ ran unfinished stalls]
  rfl

theorem perform_sizeOverflow {run : List (List α) × Record α}
    (ran : tape.runAt algebra point = .ok run) (positive : 0 < options.sweepWidth)
    (exceeds : ¬ Tiles options.sweepWidth plan.seeds.length) :
    plan.perform algebra one tape options point = .error (.violation .sizeOverflow) := by
  rw [perform, Session.sweepColors_sizeOverflow _ ran plan.shaped positive exceeds]
  rfl

end ColorPlan

/-! ## Colors -/

def Tape.sweptColors (tape : Tape) (iind oind : Nat) : Except Error Nat := do
  let pattern ← tape.jacobianPattern iind oind
  let byColumn ← pattern.columnColoring
  let byRow ← pattern.rowColoring
  return min byColumn.count byRow.count

theorem Tape.sweptColors_eq_ok {tape : Tape} {iind oind colors : Nat} :
    tape.sweptColors iind oind = .ok colors ↔ ∃ pattern byColumn byRow,
      tape.jacobianPattern iind oind = .ok pattern ∧ pattern.columnColoring = .ok byColumn ∧
      pattern.rowColoring = .ok byRow ∧ min byColumn.count byRow.count = colors := by
  simp only [sweptColors, bind_eq_ok]
  constructor
  · rintro ⟨pattern, found, byColumn, columnsColored, byRow, rowsColored, counted⟩
    exact ⟨pattern, byColumn, byRow, found, columnsColored, rowsColored, Except.ok.inj counted⟩
  · rintro ⟨pattern, byColumn, byRow, found, columnsColored, rowsColored, rfl⟩
    exact ⟨pattern, found, byColumn, columnsColored, byRow, rowsColored, rfl⟩

def Tape.sparseJacobianAt (arithmetic : Arithmetic α) (algebra : Algebra (Except Error) α) (one : α)
    (tape : Tape) (options : EvalOptions) (point : List (List α)) (iind oind : Nat) :
    Except Error (Pattern × List α) :=
  (Session.fresh algebra one tape options).sparseJacobianBy
    (tape.sweepAt algebra point tape.inputs (arithmetic.pushedSeed tape))
    (tape.sweepAt algebra point tape.outputs (arithmetic.pulledSeed tape)) iind oind

theorem Session.sparseJacobianBy_of_error {session : Session α}
    {forward reverse : List (Seed α) → Except Error (Derivatives α)} {iind oind : Nat} {cause : Error}
    (fails : session.tape.sweptColors iind oind = .error cause) :
    session.sparseJacobianBy forward reverse iind oind = .error cause := by
  revert fails
  change (session.tape.jacobianPattern iind oind >>= _) = _ →
    (session.tape.jacobianPattern iind oind >>= _) = _
  rcases session.tape.jacobianPattern iind oind with _ | pattern
  · rintro ⟨⟩
    rfl
  change (pattern.columnColoring >>= _) = _ → (pattern.columnColoring >>= _) = _
  rcases pattern.columnColoring with _ | byColumn
  · rintro ⟨⟩
    rfl
  change (pattern.rowColoring >>= _) = _ → (pattern.rowColoring >>= _) = _
  rcases pattern.rowColoring with _ | byRow
  · rintro ⟨⟩
    rfl
  · exact nofun

theorem Session.sparseJacobianBy_of_colored {session : Session α}
    {forward reverse : List (Seed α) → Except Error (Derivatives α)} {iind oind : Nat}
    {pattern : Pattern} {byColumn byRow : Pattern.Coloring}
    (found : session.tape.jacobianPattern iind oind = .ok pattern)
    (columnsColored : pattern.columnColoring = .ok byColumn)
    (rowsColored : pattern.rowColoring = .ok byRow) :
    session.sparseJacobianBy forward reverse iind oind =
      if byColumn.count ≤ byRow.count then do
        let found ← session.sweepColors forward
          (session.unitSeeds session.tape.inputs iind (colorClasses byColumn))
        let values ← pattern.positions.mapM fun (row, column) =>
          directionEntry found (byColumn.colors.getD column 0) oind row
        return (pattern, values)
      else do
        let found ← session.sweepColors reverse
          (session.unitSeeds session.tape.outputs oind (colorClasses byRow))
        let values ← pattern.positions.mapM fun (row, column) =>
          directionEntry found (byRow.colors.getD row 0) iind column
        return (pattern, values) := by
  change (session.tape.jacobianPattern iind oind >>= _) = _
  rw [found, ok_bind]
  change (pattern.columnColoring >>= _) = _
  rw [columnsColored, ok_bind]
  change (pattern.rowColoring >>= _) = _
  rw [rowsColored, ok_bind]
  rfl

theorem Tape.getElem?_of_block {tape : Tape} {side : Side} {index : Nat} {block : Block}
    (found : tape.block side index = .ok block) : (tape.blocks side)[index]? = some block := by
  have ends : Ends (fun _ => True) _ (tape.block side index) :=
    Session.ends_block (fun _ => trivial) tape side index
  rwa [found] at ends

namespace Tape.Valid

variable {tape : Tape} (valid : tape.Valid) {iind oind : Nat} {pattern : Pattern}

include valid

theorem exists_represents (found : tape.jacobianPattern iind oind = .ok pattern) :
    ∃ input output, tape.inputs[iind]? = some input ∧ tape.outputs[oind]? = some output ∧
      pattern.Represents (output.slots.length, input.slots.length)
        (tape.EntryFlows input output) := by
  have inside : iind < tape.inputs.length ∧ oind < tape.outputs.length := by
    rcases bind_eq_ok.mp found with ⟨direction, preferred, -⟩
    rcases bind_eq_ok.mp preferred with ⟨input, isInput, rest⟩
    rcases bind_eq_ok.mp rest with ⟨output, isOutput, -⟩
    exact ⟨(List.getElem?_eq_some_iff.mp (getElem?_of_block isInput)).1,
      (List.getElem?_eq_some_iff.mp (getElem?_of_block isOutput)).1⟩
  rcases valid.bounded.exists_jacobianPattern ⟨iind, inside.1⟩ ⟨oind, inside.2⟩ with
    ⟨other, isOther, represents⟩
  cases Except.ok.inj (isOther.symm.trans found)
  exact ⟨_, _, List.getElem?_eq_getElem inside.1, List.getElem?_eq_getElem inside.2, represents⟩

variable (arithmetic : Arithmetic α) (algebra : Algebra (Except Error) α) (one : α)

theorem exists_plan {colors : Nat} (swept : tape.sweptColors iind oind = .ok colors) :
    ∃ (pattern : Pattern) (plan : ColorPlan α pattern.positions.length),
      tape.jacobianPattern iind oind = .ok pattern ∧ plan.seeds.length = colors ∧
      ∀ options point, tape.sparseJacobianAt arithmetic algebra one options point iind oind = (do
        let values ← plan.perform algebra one tape options point
        return (pattern, values)) := by
  rcases sweptColors_eq_ok.mp swept with
    ⟨pattern, byColumn, byRow, found, columnsColored, rowsColored, rfl⟩
  rcases valid.exists_represents found with ⟨input, output, isInput, isOutput, represents⟩
  have columnsSeparate := represents.ends_columnColoring
  rw [columnsColored] at columnsSeparate
  have rowsSeparate := represents.ends_rowColoring
  rw [rowsColored] at rowsSeparate
  have inside (position : Nat × Nat) (member : position ∈ pattern.positions) :=
    represents.lt_of_stores ((represents.mem_iff position.1 position.2).mp member)
  by_cases fewer : byColumn.count ≤ byRow.count
  · refine ⟨pattern, .ofColoring algebra.zero one tape.inputs iind byColumn (arithmetic.pushedSeed tape)
      isOutput (fun _ _ => Seed.shaped_ofVector _) pattern.positions Prod.snd Prod.fst ?_, found, ?_, ?_⟩
    · intro position member
      rcases columnsSeparate.exists_color (inside position member).2 with ⟨color, isFound, -, isColor⟩
      exact ⟨isColor ▸ isFound, (inside position member).1⟩
    · simp [ColorPlan.ofColoring, Nat.min_eq_left fewer]
    · intro options point
      rw [sparseJacobianAt, Session.sparseJacobianBy_of_colored found columnsColored rowsColored,
        if_pos fewer, ColorPlan.perform, bind_assoc]
      rfl
  · refine ⟨pattern, .ofColoring algebra.zero one tape.outputs oind byRow (arithmetic.pulledSeed tape)
      isInput (fun _ _ => Seed.shaped_ofVector _) pattern.positions Prod.fst Prod.snd ?_, found, ?_, ?_⟩
    · intro position member
      rcases rowsSeparate.exists_color (inside position member).1 with ⟨color, isFound, -, isColor⟩
      exact ⟨isColor ▸ isFound, (inside position member).2⟩
    · simp [ColorPlan.ofColoring, Nat.min_eq_right (Nat.le_of_not_le fewer)]
    · intro options point
      rw [sparseJacobianAt, Session.sparseJacobianBy_of_colored found columnsColored rowsColored,
        if_neg fewer, ColorPlan.perform, bind_assoc]
      rfl

/-- There are no more colors than entries of either block, and none only if a block has no entry. -/
theorem ends_sweptColors :
    Ends (fun cause => cause.IsEvaluation ∨ cause = .violation .sizeOverflow)
      (fun colors => ∃ input output, tape.inputs[iind]? = some input ∧
        tape.outputs[oind]? = some output ∧
        colors ≤ min input.slots.length output.slots.length ∧
        (colors = 0 ↔ input.slots = [] ∨ output.slots = []))
      (tape.sweptColors iind oind) := by
  cases found : tape.jacobianPattern iind oind with
  | error cause =>
      have answered := valid.answered_jacobianPattern iind oind
      rw [found] at answered
      rw [sweptColors, found]
      exact .inl answered
  | ok pattern =>
      rcases valid.exists_represents found with ⟨input, output, isInput, isOutput, represents⟩
      rw [sweptColors, found, ok_bind]
      refine (represents.ends_columnColoring.mono (fun _ => .inr) fun _ => id).bind ?_
      intro byColumn columnsSeparate
      refine (represents.ends_rowColoring.mono (fun _ => .inr) fun _ => id).bind ?_
      intro byRow rowsSeparate
      refine ⟨input, output, isInput, isOutput, ?_, ?_⟩
      · have fewColumns := columnsSeparate.count_le
        have fewRows := rowsSeparate.count_le
        simp only at fewColumns fewRows
        omega
      · have noColumn := columnsSeparate.count_eq_zero
        have noRow := rowsSeparate.count_eq_zero
        simp only [List.length_eq_zero_iff] at noColumn noRow
        rw [← noColumn, ← noRow]
        omega

theorem blocks_of_swept {colors : Nat} (swept : tape.sweptColors iind oind = .ok colors) :
    ∃ input output, tape.inputs[iind]? = some input ∧ tape.outputs[oind]? = some output ∧
      colors ≤ min input.slots.length output.slots.length ∧
      (colors = 0 ↔ input.slots = [] ∨ output.slots = []) := by
  have ends : Ends _ _ (tape.sweptColors iind oind) := valid.ends_sweptColors
  rwa [swept] at ends

variable {options : EvalOptions} {point : List (List α)} {arithmetic algebra one}

/-- If the sweeps tile the colors, or there is none to be swept, their width does not show. -/
theorem sparseJacobianAt_eq_single
    (fits : ∀ colors, tape.sweptColors iind oind = .ok colors →
      colors = 0 ∨ Tiles options.sweepWidth colors ∨ ∃ cause, tape.runAt algebra point = .error cause) :
    tape.sparseJacobianAt arithmetic algebra one options point iind oind =
      tape.sparseJacobianAt arithmetic algebra one { options with directionsPerSweep := 1 } point
        iind oind := by
  cases swept : tape.sweptColors iind oind with
  | error cause =>
      rw [sparseJacobianAt, Session.sparseJacobianBy_of_error swept, sparseJacobianAt,
        Session.sparseJacobianBy_of_error swept]
  | ok colors =>
      rcases valid.exists_plan arithmetic algebra one swept with ⟨pattern, plan, -, rfl, equal⟩
      replace fits := fits _ swept
      rw [List.length_eq_zero_iff] at fits
      rw [equal, equal, plan.perform_of_fits fits, plan.perform_of_fits]
      exact fits.imp_right (Or.imp_left Tiles.one)

theorem sparseJacobianAt_ne_noProgress
    (fits : ∀ colors, tape.sweptColors iind oind = .ok colors →
      colors = 0 ∨ Tiles options.sweepWidth colors)
    (reported : Ends Error.IsEvaluation (fun _ => True) (tape.runAt algebra point)) :
    tape.sparseJacobianAt arithmetic algebra one options point iind oind ≠
      .error (.violation .noProgress) := by
  cases swept : tape.sweptColors iind oind with
  | error cause =>
      have ends : Ends _ _ (tape.sweptColors iind oind) := valid.ends_sweptColors
      rw [swept] at ends
      rw [sparseJacobianAt, Session.sparseJacobianBy_of_error swept]
      rintro ⟨⟩
      simp [Ends, Error.IsEvaluation] at ends
  | ok colors =>
      rcases valid.exists_plan arithmetic algebra one swept with ⟨pattern, plan, -, rfl, equal⟩
      replace fits := fits _ swept
      rw [List.length_eq_zero_iff] at fits
      rw [equal]
      by_cases none : plan.seeds = []
      · rcases plan.exists_perform fits (.inl none) with ⟨values, performed, -⟩
        rw [performed]
        exact nofun
      rcases reported.outcome with ⟨run, -, ran⟩ | ⟨cause, ⟨reason, rfl⟩, fails⟩
      · rcases plan.exists_perform fits (.inr ⟨run, ran⟩) with ⟨values, performed, -⟩
        rw [performed]
        exact nofun
      · rw [plan.perform_of_error fails none]
        exact nofun

section Stalled

variable {colors : Nat} (swept : tape.sweptColors iind oind = .ok colors)
  {run : List (List α) × Record α} (ran : tape.runAt algebra point = .ok run)

include swept ran

theorem sparseJacobianAt_noProgress (nonzero : colors ≠ 0) (stalls : options.sweepWidth = 0) :
    tape.sparseJacobianAt arithmetic algebra one options point iind oind =
      .error (.violation .noProgress) := by
  rcases valid.exists_plan arithmetic algebra one swept with ⟨pattern, plan, -, rfl, equal⟩
  rw [equal, plan.perform_noProgress ran (by simpa using nonzero) stalls]
  rfl

theorem sparseJacobianAt_sizeOverflow (positive : 0 < options.sweepWidth)
    (exceeds : ¬ Tiles options.sweepWidth colors) :
    tape.sparseJacobianAt arithmetic algebra one options point iind oind =
      .error (.violation .sizeOverflow) := by
  rcases valid.exists_plan arithmetic algebra one swept with ⟨pattern, plan, -, rfl, equal⟩
  rw [equal, plan.perform_sizeOverflow ran positive exceeds]
  rfl

end Stalled

end Tape.Valid

/-! ## Main result -/

theorem Evaluator.concludes_turns {tape : Tape} {options : EvalOptions}
    {algebra : Algebra (Except Error) α} {one : α} {sweep : List (Seed α) → EvaluatorM α (Derivatives α)}
    {swept : List (Seed α) → Except Error (Derivatives α)}
    (each : ∀ seeds, Concludes tape options algebra one (sweep seeds) (swept seeds)) (width count : Nat)
    (sweeps : ColorSweeps α) :
    Concludes tape options algebra one (ColorSweeps.turns sweep width count sweeps)
      (ColorSweeps.turns swept width count sweeps) := by
  induction count generalizing sweeps with
  | zero => exact Concludes.compositional.pure _
  | succ count ih => exact (Concludes.compositional.step each width sweeps).bind ih

theorem Evaluator.outcome_sparseJacobian {tape : Tape} {options : EvalOptions}
    {algebra : Algebra (Except Error) α} {one : α} {arithmetic : Arithmetic α} (valid : tape.Valid)
    (computes : algebra.Computes arithmetic) (point : List (List α)) (iind oind : Nat)
    {evaluator : Evaluator α} (serves : Serves tape options algebra one evaluator) :
    (evaluator.perform (sparseJacobian point iind oind)).1 =
      tape.sparseJacobianAt arithmetic algebra one options point iind oind :=
  (concludes_sparseJacobian valid computes point iind oind).outcome serves

/-- The packing of a sparse Jacobian does not show unless it must. A valid tape gives the same outcome as with one
direction per sweep if the number of directions is not a positive multiple of 2³² and one of the two blocks has
fewer than 2³¹ entries; and always if there is no color to be swept or the point cannot be evaluated. Otherwise
the sweeps either tile the colors, and the outcome is the same, or have a positive width but an end that cannot be
counted in 32 bits, and this stops the call, or have no direction: then the sweeps are where they were
after any number of turns, and the call does not end. -/
theorem Evaluator.sparseJacobian_packing [Scalar α] {tape : Tape} (checked : tape.validate = .ok ())
    (options : EvalOptions) (history earlier : List (Call α)) (inputs : List (List α))
    (iind oind : Nat) :
    let evaluator := (new tape options).after history
    let single := (new tape { options with directionsPerSweep := 1 }).after earlier
    let outcome := (evaluator.perform (sparseJacobian inputs iind oind)).1
    let unpacked := (single.perform (sparseJacobian inputs iind oind)).1
    ((2 ^ 32 ∣ options.directionsPerSweep → options.directionsPerSweep = 0) →
      (∀ input output, tape.inputs[iind]? = some input → tape.outputs[oind]? = some output →
        min input.slots.length output.slots.length < 2 ^ 31) →
      outcome = unpacked ∧ outcome ≠ .error (.violation .noProgress)) ∧
    ((∀ colors values, tape.sweptColors iind oind = .ok colors →
        (evaluator.perform (evaluate inputs)).1 = .ok values → colors = 0) → outcome = unpacked) ∧
    ∀ colors values, tape.sweptColors iind oind = .ok colors → colors ≠ 0 →
      (evaluator.perform (evaluate inputs)).1 = .ok values →
      (Tiles options.sweepWidth colors → outcome = unpacked) ∧
      (0 < options.sweepWidth → ¬ Tiles options.sweepWidth colors →
        outcome = .error (.violation .sizeOverflow)) ∧
      (2 ^ 32 ∣ options.directionsPerSweep → options.directionsPerSweep ≠ 0 →
        outcome = .error (.violation .noProgress) ∧
        ∀ (count : Nat) (seeds : List (Seed α)),
          let start : ColorSweeps α := { remaining := seeds }
          (evaluator.perform
            (ColorSweeps.turns (forwardAd inputs) options.sweepWidth count start)).1 = .ok start ∧
          (evaluator.perform
            (ColorSweeps.turns (reverseAd inputs) options.sweepWidth count start)).1 = .ok start) := by
  have valid := Tape.valid_of_validate checked
  have serves := serves_after_new valid options history
  have computes := numbers_computes α options.domainPolicy
  have packed := outcome_sparseJacobian valid computes inputs iind oind serves
  have single := outcome_sparseJacobian valid computes inputs iind oind
    (serves_after_new valid { options with directionsPerSweep := 1 } earlier)
  have evaluated := (concludes_evaluate valid computes inputs).outcome serves
  dsimp only
  rw [packed, single, evaluated]
  refine ⟨fun indivisible few => ?_, fun none => ?_,
    fun colors values swept nonzero evaluated => ⟨?_, ?_, ?_⟩⟩
  · have fits (colors : Nat) (swept : tape.sweptColors iind oind = .ok colors) :
        colors = 0 ∨ Tiles options.sweepWidth colors := by
      rcases valid.blocks_of_swept swept with ⟨input, output, isInput, isOutput, bounded, -⟩
      exact .inr (EvalOptions.tiles indivisible
        (Nat.lt_of_le_of_lt bounded (few input output isInput isOutput)))
    have reported := valid.ends_runAt (numbers_guarded options.domainPolicy)
      (fun _ => Error.IsRejection.isEvaluation) inputs
    exact ⟨valid.sparseJacobianAt_eq_single fun colors swept => (fits colors swept).imp_right .inl,
      valid.sparseJacobianAt_ne_noProgress fits reported⟩
  · apply valid.sparseJacobianAt_eq_single
    intro colors swept
    cases ran : tape.runAt (numbers options.domainPolicy) inputs with
    | error cause => exact .inr (.inr ⟨cause, rfl⟩)
    | ok run => exact .inl (none colors run.1 swept (Tape.map_runAt_eq_ok.mpr ⟨run.2, ran⟩))
  · intro tiles
    apply valid.sparseJacobianAt_eq_single
    intro other sweptOther
    cases Except.ok.inj (swept.symm.trans sweptOther)
    exact .inr (.inl tiles)
  · intro positive exceeds
    rcases Tape.map_runAt_eq_ok.mp evaluated with ⟨record, ran⟩
    exact valid.sparseJacobianAt_sizeOverflow swept ran positive exceeds
  · intro divides positive
    have stalls := EvalOptions.sweepWidth_eq_zero.mpr ⟨positive, divides⟩
    rcases Tape.map_runAt_eq_ok.mp evaluated with ⟨record, ran⟩
    refine ⟨valid.sparseJacobianAt_noProgress swept ran nonzero stalls, fun count seeds => ⟨?_, ?_⟩⟩
    · rw [(concludes_turns (concludes_forwardAd valid computes inputs) _ count _).outcome serves, stalls]
      exact ColorSweeps.turns_zero (Tape.sweepAt_of_run ran (by simp)) (Nat.two_pow_pos 32) count
    · rw [(concludes_turns (concludes_reverseAd valid computes inputs) _ count _).outcome serves, stalls]
      exact ColorSweeps.turns_zero (Tape.sweepAt_of_run ran (by simp)) (Nat.two_pow_pos 32) count

def inPlaceSquare : Tape :=
  ⟨[⟨.unary .sq, 0, 0, unusedOperand, 0⟩], 1, [⟨"x", .scalar, [0]⟩], [⟨"y", .scalar, [0]⟩]⟩

theorem inPlaceSquare_validate : inPlaceSquare.validate = .ok () := by
  simp [inPlaceSquare, Tape.validate, Tape.checkInputs, Tape.checkSlotCount, Tape.checkInputSlots,
    Tape.checkInstructions, Tape.checkOutputs, Instruction.spareOperands, Instruction.operands,
    Pattern.nnz, Pattern.scalar]

/-- A number of directions beyond 32 bits finds the derivative at three if it is no multiple of 2³²; if it is,
the only color is still to be swept after a thousand turns. -/
theorem inPlaceSquare_packing :
    let wide : Evaluator Float := .new inPlaceSquare { directionsPerSweep := 2 ^ 32 + 8 }
    let stalled : Evaluator Float := .new inPlaceSquare { directionsPerSweep := 2 ^ 32 }
    let start : ColorSweeps Float := { remaining := [[[1]]] }
    inPlaceSquare.validate = .ok () ∧
    (wide.perform (Evaluator.sparseJacobian [[3]] 0 0)).1 = .ok (.scalar, [6]) ∧
    (stalled.perform (ColorSweeps.turns (Evaluator.forwardAd [[3]]) 0 1000 start)).1 = .ok start := by
  have colors : inPlaceSquare.sweptColors 0 0 = .ok 1 := by decide +kernel
  refine ⟨inPlaceSquare_validate, ?_, ?_⟩
  · have packing := Evaluator.sparseJacobian_packing inPlaceSquare_validate
      { directionsPerSweep := 2 ^ 32 + 8 } [] [] [[(3 : Float)]] 0 0
    refine (packing.1 (by decide) ?_).1.trans (by decide +kernel)
    rintro _ _ ⟨⟩ ⟨⟩
    decide
  · have packing := Evaluator.sparseJacobian_packing inPlaceSquare_validate
      { directionsPerSweep := 2 ^ 32 } [] [] [[(3 : Float)]] 0 0
    have stalls := packing.2.2 1 [[9]] colors (by decide) (by decide +kernel)
    exact ((stalls.2.2 (by decide) (by decide)).2 1000 _).1

/-- With 2³² directions per sweep the derivative of the square is never found. -/
theorem inPlaceSquare_never_swept :
    ((Evaluator.new inPlaceSquare { directionsPerSweep := 2 ^ 32 } : Evaluator Float).perform
      (Evaluator.sparseJacobian [[3]] 0 0)).1 = .error (.violation .noProgress) ∧
    ((Evaluator.new inPlaceSquare { directionsPerSweep := 1 } : Evaluator Float).perform
      (Evaluator.sparseJacobian [[3]] 0 0)).1 = .ok (.scalar, [6]) := by
  constructor <;> decide +kernel

end Autodiff
