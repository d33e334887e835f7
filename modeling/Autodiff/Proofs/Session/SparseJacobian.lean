import Autodiff.Proofs.Pattern.Coloring
import Autodiff.Proofs.Session.ColorSweeps
import Autodiff.Proofs.Session.PatternSoundness

/-!
# Sparse Jacobians

All entries of one color are seeded together. An output entry depends on at most one of them, so what it
receives is what a direction of its own would give, without any law of arithmetic. Hence the values of a sparse
Jacobian are the stored entries of the dense one that is taken in the same direction.
-/

namespace Autodiff

variable {α : Type}

/-! ## Entries of a color -/

namespace Pattern.Coloring

def members (coloring : Coloring) (color : Nat) : List Nat :=
  (coloring.colors.zipIdx.filter fun entry => entry.1 == color).map Prod.snd

theorem mem_members {coloring : Coloring} {color line : Nat} :
    line ∈ coloring.members color ↔ coloring.colors[line]? = some color := by
  simp [members, List.mem_zipIdx_iff_getElem?]

theorem getElem?_colorClasses {coloring : Coloring} {color : Nat} (inside : color < coloring.count) :
    (Session.colorClasses coloring)[color]? = some (coloring.members color) := by
  rw [Session.colorClasses, buckets_eq, List.getElem?_map, List.getElem?_map,
    List.getElem?_range inside]
  rfl

@[simp] theorem length_colorClasses (coloring : Coloring) :
    (Session.colorClasses coloring).length = coloring.count := by
  rw [Session.colorClasses, buckets_eq, List.length_map, List.length_map, List.length_range]

theorem Separates.exists_color {coloring : Coloring} {lines line : Nat}
    {stores : Nat → Nat → Prop} (separates : coloring.Separates lines stores)
    (inside : line < lines) :
    ∃ color < coloring.count,
      coloring.colors[line]? = some color ∧ coloring.colors.getD line 0 = color := by
  have found := List.getElem?_eq_getElem (separates.length_eq.symm ▸ inside)
  refine ⟨_, separates.lt_count _ (List.getElem_mem _), found, ?_⟩
  rw [List.getD_eq_getElem?_getD, found, Option.getD_some]

/-- Of the lines that are stored across, one has a given color. -/
theorem Separates.mem_members_iff {coloring : Coloring} {lines across line other color : Nat}
    {stores : Nat → Nat → Prop} (separates : coloring.Separates lines stores)
    (stored : stores across line) (otherStored : stores across other)
    (isColor : coloring.colors[line]? = some color) :
    other ∈ coloring.members color ↔ other = line := by
  rw [mem_members]
  constructor
  · intro otherColor
    exact separates.eq_of_stores otherStored stored otherColor isColor
  · rintro rfl
    exact isColor

end Pattern.Coloring

namespace Arithmetic

variable {arithmetic : Arithmetic α} {one : α} {tape : Tape} {record : Record α}
  {output : BlockEntry tape.outputs} {input : BlockEntry tape.inputs}
  {coloring : Pattern.Coloring} {color : Nat}

/-- Of the inputs of one color, an output receives the one that it depends on. -/
theorem jointColumn_members (records : tape.Records record)
    (separates : coloring.Separates (tape.inputs.get input.1).slots.length
      (tape.EntryFlows (tape.inputs.get input.1) (tape.outputs.get output.1)))
    (flows : Passes tape.instructions input.slot output.slot)
    (isColor : coloring.colors[input.2.val]? = some color) :
    arithmetic.jointColumn one tape record input.1 (coloring.members color) output =
      arithmetic.forwardJacobian one tape record output input := by
  apply jointColumn_congr arithmetic records
  rintro ⟨block, number⟩ sameBlock otherFlows
  obtain rfl : block = input.1 := Fin.ext sameBlock
  rw [List.mem_singleton]
  exact separates.mem_members_iff (Tape.entryFlows_iff.mpr flows)
    (Tape.entryFlows_iff.mpr otherFlows) isColor

/-- Of the outputs of one color, an input reaches one. -/
theorem jointRow_members (records : tape.Records record)
    (separates : coloring.Separates (tape.outputs.get output.1).slots.length
      fun column row => tape.EntryFlows (tape.inputs.get input.1) (tape.outputs.get output.1) row column)
    (flows : Passes tape.instructions input.slot output.slot)
    (isColor : coloring.colors[output.2.val]? = some color) :
    arithmetic.jointRow one tape record output.1 (coloring.members color) input =
      arithmetic.reverseJacobian one tape record output input := by
  apply jointRow_congr arithmetic records
  rintro ⟨block, number⟩ sameBlock otherFlows
  obtain rfl : block = output.1 := Fin.ext sameBlock
  rw [List.mem_singleton]
  exact separates.mem_members_iff (Tape.entryFlows_iff.mpr flows)
    (Tape.entryFlows_iff.mpr otherFlows) isColor

end Arithmetic

/-! ## Sweeps over colors -/

namespace Session.Answers

variable {β γ : Type} {tape : Tape} {options : EvalOptions} {algebra : Algebra (Except Error) α} {one : α}

theorem sweepColors (width : options.directionsPerSweep < 2 ^ 32)
    {sweep : List (Seed α) → SessionM α (Derivatives α)} {seeds found : List (Seed α)}
    (few : seeds.length < 2 ^ 31) {work : Vector α tape.numSlots}
    (each : ∀ rest, Answers tape options algebra one (Session.packed sweep rest seeds) found) :
    Answers tape options algebra one ((holding tape options algebra one work).sweepColors sweep seeds)
      found := by
  have tiles := tiles_of_lt (options.sweepWidth_pos width) options.sweepWidth_lt few
  rw [sweepColors_eq_packed (holding tape options algebra one work) sweep tiles]
  exact each _

theorem exists_mapM {run : β → SessionM α γ} {elements : List β} {related : β → γ → Prop}
    (each : ∀ element ∈ elements,
      ∃ result, Answers tape options algebra one (run element) result ∧ related element result) :
    ∃ results, Answers tape options algebra one (elements.mapM run) results ∧
      List.Forall₂ related elements results := by
  induction elements with
  | nil => exact ⟨[], .pure [], .nil⟩
  | cons element elements ih =>
      rw [List.forall_mem_cons] at each
      rcases each with ⟨⟨result, answers, relates⟩, others⟩
      rcases ih others with ⟨results, allAnswer, allRelate⟩
      refine ⟨result :: results, ?_, .cons relates allRelate⟩
      rw [List.mapM_cons]
      exact answers.bind (allAnswer.bind (.pure _))

end Session.Answers

/-! ## Reading the stored positions -/

theorem directionEntry_colorClasses {coloring : Pattern.Coloring} {color : Nat}
    (inside : color < coloring.count) {blocks : List Block}
    (vector : List Nat → BlockEntry blocks → α) (entry : BlockEntry blocks) :
    directionEntry ((Session.colorClasses coloring).map fun entries =>
        Seed.ofVector blocks (vector entries)) color entry.1 entry.2 =
      .ok (vector (coloring.members color) entry) := by
  simp only [directionEntry, List.getElem?_map, Pattern.Coloring.getElem?_colorClasses inside,
    Option.map_some]
  exact Seed.entry_ofVector _ entry

section Reading

variable {tape : Tape} {iind : Fin tape.inputs.length} {oind : Fin tape.outputs.length}
  {pattern : Pattern} (represents : pattern.Represents
    ((tape.outputs.get oind).slots.length, (tape.inputs.get iind).slots.length)
    (tape.EntryFlows (tape.inputs.get iind) (tape.outputs.get oind)))
include represents

theorem Tape.exists_entries {row column : Nat} (member : (row, column) ∈ pattern.positions) :
    ∃ (output : Fin (tape.outputs.get oind).slots.length)
      (input : Fin (tape.inputs.get iind).slots.length), row = output ∧ column = input ∧
      Passes tape.instructions (BlockEntry.slot ⟨iind, input⟩) (BlockEntry.slot ⟨oind, output⟩) := by
  have stored := (represents.mem_iff row column).mp member
  have inside := represents.lt_of_stores stored
  exact ⟨⟨row, inside.1⟩, ⟨column, inside.2⟩, rfl, rfl, Tape.entryFlows_iff.mp stored⟩

namespace Arithmetic

variable (arithmetic : Arithmetic α) (options : EvalOptions) (algebra : Algebra (Except Error) α)
  (one : α) {record : Record α} (records : tape.Records record) {coloring : Pattern.Coloring}
include records

theorem read_columns (separates : coloring.Separates (tape.inputs.get iind).slots.length
      (tape.EntryFlows (tape.inputs.get iind) (tape.outputs.get oind))) :
    ∃ entries, Session.Answers tape options algebra one
        (pattern.positions.mapM fun (row, column) => directionEntry
          ((Session.colorClasses coloring).map fun entries =>
            Seed.ofVector tape.outputs (arithmetic.jointColumn one tape record iind entries))
          (coloring.colors.getD column 0) oind row) entries ∧
      List.Forall₂ (fun position entry =>
        entryOfRow? (blockRows (arithmetic.forwardJacobian one tape record) iind oind)
          position.1 position.2 = some entry) pattern.positions entries := by
  apply Session.Answers.exists_mapM
  rintro ⟨row, column⟩ member
  rcases Tape.exists_entries represents member with ⟨output, input, rfl, rfl, flows⟩
  rcases separates.exists_color input.isLt with ⟨color, isFound, isColor, read⟩
  refine ⟨arithmetic.jointColumn one tape record iind (coloring.members color) ⟨oind, output⟩,
    .lift ?_, ?_⟩
  · rw [read]
    exact directionEntry_colorClasses isFound _ ⟨oind, output⟩
  · refine (entryOfRow?_blockRows _ ⟨oind, output⟩ ⟨iind, input⟩).trans (congrArg some ?_)
    exact (jointColumn_members records separates flows isColor).symm

theorem read_rows (separates : coloring.Separates (tape.outputs.get oind).slots.length
      fun column row =>
        tape.EntryFlows (tape.inputs.get iind) (tape.outputs.get oind) row column) :
    ∃ entries, Session.Answers tape options algebra one
        (pattern.positions.mapM fun (row, column) => directionEntry
          ((Session.colorClasses coloring).map fun entries =>
            Seed.ofVector tape.inputs (arithmetic.jointRow one tape record oind entries))
          (coloring.colors.getD row 0) iind column) entries ∧
      List.Forall₂ (fun position entry =>
        entryOfRow? (blockRows (arithmetic.reverseJacobian one tape record) iind oind)
          position.1 position.2 = some entry) pattern.positions entries := by
  apply Session.Answers.exists_mapM
  rintro ⟨row, column⟩ member
  rcases Tape.exists_entries represents member with ⟨output, input, rfl, rfl, flows⟩
  rcases separates.exists_color output.isLt with ⟨color, isFound, isColor, read⟩
  refine ⟨arithmetic.jointRow one tape record oind (coloring.members color) ⟨iind, input⟩,
    .lift ?_, ?_⟩
  · rw [read]
    exact directionEntry_colorClasses isFound _ ⟨iind, input⟩
  · refine (entryOfRow?_blockRows _ ⟨oind, output⟩ ⟨iind, input⟩).trans (congrArg some ?_)
    exact (jointRow_members records separates flows isColor).symm

end Arithmetic

end Reading

/-- Sparse Jacobians are exact. On a valid tape, at every point that can be evaluated, a session whose
sweeps have fewer than 2³² directions answers with the Jacobian pattern and, for each of its stored positions in
order, the very entry of a dense Jacobian there: of the one by forward sweeps if columns need no more colors than
rows, and otherwise of the one by reverse sweeps. No law of arithmetic is assumed. -/
theorem Tape.sparseJacobian_eq_dense {arithmetic : Arithmetic α}
    {algebra : Algebra (Except Error) α} {tape : Tape} (computes : algebra.Computes arithmetic)
    (validated : tape.validate = .ok ()) (iind : Fin tape.inputs.length)
    (oind : Fin tape.outputs.length)
    (fewColumns : (tape.inputs.get iind).slots.length < 2 ^ 31)
    (fewRows : (tape.outputs.get oind).slots.length < 2 ^ 31)
    {options : EvalOptions} (width : options.directionsPerSweep < 2 ^ 32) {one : α}
    {point values : List (List α)} {work : Vector α tape.numSlots}
    (evaluated : ((Session.holding tape options algebra one work).perform
      (Session.evaluate point)).1 = .ok values) :
    ∃ pattern byColumn byRow entries forward reverse,
      tape.jacobianPattern iind oind = .ok pattern ∧
      pattern.columnColoring = .ok byColumn ∧ pattern.rowColoring = .ok byRow ∧
      Session.Answers tape options algebra one (Session.sparseJacobian point iind oind)
        (pattern, entries) ∧
      Session.Answers tape options algebra one (Session.jacobianForward point iind oind) forward ∧
      Session.Answers tape options algebra one (Session.jacobianReverse point iind oind) reverse ∧
      List.Forall₂ (fun position entry =>
        entryOfRow? (if byColumn.count ≤ byRow.count then forward else reverse)
          position.1 position.2 = some entry) pattern.positions entries := by
  have valid := valid_of_validate validated
  rcases computes.exists_runsTo valid evaluated with ⟨record, runs⟩
  rcases valid.bounded.exists_jacobianPattern iind oind with ⟨pattern, found, represents⟩
  have large : 2 ^ 31 + 1 ≤ maxBuffer := by decide
  rcases represents.exists_columnColoring (by simp only; omega) with
    ⟨byColumn, columnsColored, columnsSeparate⟩
  rcases represents.exists_rowColoring (by simp only; omega) (by simp only; omega) with
    ⟨byRow, rowsColored, rowsSeparate⟩
  have colored : ∃ entries,
      Session.Answers tape options algebra one (Session.sparseJacobian point iind oind)
        (pattern, entries) ∧
      List.Forall₂ (fun position entry => entryOfRow? (if byColumn.count ≤ byRow.count
          then blockRows (arithmetic.forwardJacobian one tape record) iind oind
          else blockRows (arithmetic.reverseJacobian one tape record) iind oind)
        position.1 position.2 = some entry) pattern.positions entries := by
    by_cases fewer : byColumn.count ≤ byRow.count
    · rcases arithmetic.read_columns represents options algebra one runs.records columnsSeparate with
        ⟨entries, read, agree⟩
      refine ⟨entries, .get_bind fun work => (Session.Answers.lift found).bind ?_,
        by rwa [if_pos fewer]⟩
      refine (Session.Answers.lift columnsColored).bind ((Session.Answers.lift rowsColored).bind ?_)
      rw [if_pos fewer]
      have few := Nat.lt_of_le_of_lt columnsSeparate.count_le fewColumns
      refine (Session.Answers.sweepColors width (by simpa using few) fun rest =>
        computes.columns runs valid iind rest _ work).bind ?_
      exact read.bind (.pure _)
    · rcases arithmetic.read_rows represents options algebra one runs.records rowsSeparate with
        ⟨entries, read, agree⟩
      refine ⟨entries, .get_bind fun work => (Session.Answers.lift found).bind ?_,
        by rwa [if_neg fewer]⟩
      refine (Session.Answers.lift columnsColored).bind ((Session.Answers.lift rowsColored).bind ?_)
      rw [if_neg fewer]
      have few := Nat.lt_of_le_of_lt rowsSeparate.count_le fewRows
      refine (Session.Answers.sweepColors width (by simpa using few) fun rest =>
        computes.rows runs valid oind rest _ work).bind ?_
      exact read.bind (.pure _)
  rcases colored with ⟨entries, answers, agree⟩
  exact ⟨pattern, byColumn, byRow, entries, _, _, found, columnsColored, rowsColored, answers,
    computes.jacobianForward runs valid iind oind, computes.jacobianReverse runs valid iind oind,
    agree⟩

/-- One direction finds all stored derivatives of the rerouting tape, also where the partial of the sine is
not a number. -/
theorem rerouting_sparseJacobian : rerouting.validate = .ok () ∧
    (Pattern.columnColoring ⟨4, [[], [1, 3], [2]]⟩).toOption = some ⟨[0, 0, 0], 1⟩ ∧
    ∃ entries forward,
      Session.Answers rerouting {} (numbers .propagate) (1 : Float)
        (Session.sparseJacobian [[1, 1 / 0, 1]] 0 0) (⟨4, [[], [1, 3], [2]]⟩, entries) ∧
      Session.Answers rerouting {} (numbers .propagate) (1 : Float)
        (Session.jacobianForward [[1, 1 / 0, 1]] 0 0) forward ∧
      List.Forall₂ (fun position entry => entryOfRow? forward position.1 position.2 = some entry)
        [(1, 1), (3, 1), (2, 2)] entries := by
  have shaped : Session.Shaped rerouting.inputs [[(1 : Float), 1 / 0, 1]] := by
    simp [Session.Shaped, rerouting]
  have valid := Tape.valid_of_validate rerouting_validate
  have evaluated := ((numbers_evaluates Float).evaluate valid shaped {} 1).outcome (.replicate _ 0)
  rcases Tape.sparseJacobian_eq_dense (numbers_computes Float .propagate) rerouting_validate
    ⟨0, by decide⟩ ⟨0, by decide⟩ (by decide) (by decide) (by decide) evaluated with
    ⟨pattern, byColumn, byRow, entries, forward, _, found, columnsColored, rowsColored, sparse, dense,
      _, agree⟩
  cases Except.ok.inj (found.symm.trans rerouting_jacobianPattern)
  have columns : Pattern.columnColoring ⟨4, [[], [1, 3], [2]]⟩ = .ok ⟨[0, 0, 0], 1⟩ := by cbv
  have rows : Pattern.rowColoring ⟨4, [[], [1, 3], [2]]⟩ = .ok ⟨[0, 0, 0, 1], 2⟩ := by cbv
  cases Except.ok.inj (columnsColored.symm.trans columns)
  cases Except.ok.inj (rowsColored.symm.trans rows)
  exact ⟨rerouting_validate, by rw [columns]; rfl, entries, forward, sparse, dense, agree⟩

end Autodiff
