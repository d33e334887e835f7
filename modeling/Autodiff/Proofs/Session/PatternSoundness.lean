import Autodiff.Proofs.Dependency.Propagation
import Autodiff.Proofs.Scalar.Exact
import Autodiff.Proofs.Session.UnitDirections
import Autodiff.Scalar.Float

/-!
# Jacobian patterns are sound

Where the pattern of an output entry stores nothing, the input has no influence: two points that differ only
there give the same value, and the entry of either dense Jacobian is exactly zero, whatever the partials are.
Both follow from the data flow that the pattern represents.
-/

namespace Autodiff

variable {α : Type}

theorem entryOfRow?_ofVector {blocks : List Block} (vector : BlockEntry blocks → α)
    (entry : BlockEntry blocks) :
    entryOfRow? (Seed.ofVector blocks vector) entry.1 entry.2 = some (vector entry) := by
  simp [entryOfRow?, Seed.ofVector]

namespace Tape

variable {tape : Tape}

theorem entryFlows_iff {output : BlockEntry tape.outputs} {input : BlockEntry tape.inputs} :
    tape.EntryFlows (tape.inputs.get input.1) (tape.outputs.get output.1) output.2 input.2 ↔
      Passes tape.instructions input.slot output.slot := by
  simp [EntryFlows, BlockEntry.slot, flowsTo_iff_passes]

/-- An output entry is computed from the input entries that flow to it. -/
theorem executeAll_stored_congr (meaning : Meaning α) (rest : α)
    {first second : BlockEntry tape.inputs → α} {output : BlockEntry tape.outputs}
    (agree : ∀ input, Passes tape.instructions input.slot output.slot →
      first input = second input) :
    executeAll meaning tape.instructions
        (stored rest tape.inputs (Seed.ofVector tape.inputs first)) output.slot =
      executeAll meaning tape.instructions
        (stored rest tape.inputs (Seed.ofVector tape.inputs second)) output.slot := by
  apply executeAll_congr
  intro source flows
  apply stored_congr
  rintro input rfl
  exact agree input flows

/-- Jacobian patterns are sound for values and derivatives. Take any meaning of the opcodes that every result
is accepted under, a valid tape and an entry of an output. The patterns of this output with respect to all
inputs exist. First, two points that agree on the entries stored in the row of the output entry both evaluate,
to the same value of this entry. Second, whatever the partials are, both dense Jacobians are
exactly zero in the entries of this row that are not stored. -/
theorem jacobianPattern_sound {meaning : Meaning α} {algebra : Algebra (Except Error) α}
    (evaluates : algebra.Evaluates meaning) (validated : tape.validate = .ok ())
    (output : BlockEntry tape.outputs) :
    ∃ patterns : Fin tape.inputs.length → Pattern,
      (∀ iind : Fin tape.inputs.length,
        tape.jacobianPattern iind output.1 = .ok (patterns iind)) ∧
      (∀ first second : List (List α),
        Session.Shaped tape.inputs first → Session.Shaped tape.inputs second →
        (∀ (iind : Fin tape.inputs.length) (column : Nat),
          (output.2.val, column) ∈ (patterns iind).positions →
            entryOfRow? first iind column = entryOfRow? second iind column) →
        ∃ firstValues secondValues value,
          (∀ options one,
            Session.Answers tape options algebra one (Session.evaluate first) firstValues ∧
            Session.Answers tape options algebra one (Session.evaluate second) secondValues) ∧
          entryOfRow? firstValues output.1 output.2 = some value ∧
          entryOfRow? secondValues output.1 output.2 = some value) ∧
      ∀ arithmetic : Arithmetic α, algebra.Computes arithmetic →
        arithmetic.isZero arithmetic.zero = true →
        arithmetic.add arithmetic.zero arithmetic.zero = arithmetic.zero →
        ∀ point : List (List α), Session.Shaped tape.inputs point →
        ∀ (options : EvalOptions) (one : α) (iind : Fin tape.inputs.length),
          ∃ forward reverse,
            Session.Answers tape options algebra one
              (Session.jacobianForward point iind output.1) forward ∧
            Session.Answers tape options algebra one
              (Session.jacobianReverse point iind output.1) reverse ∧
            ∀ column < (tape.inputs.get iind).slots.length,
              (output.2.val, column) ∉ (patterns iind).positions →
                entryOfRow? forward output.2 column = some arithmetic.zero ∧
                entryOfRow? reverse output.2 column = some arithmetic.zero := by
  have valid := valid_of_validate validated
  choose patterns found represents using
    fun iind => valid.bounded.exists_jacobianPattern iind output.1
  have stored_iff : ∀ input : BlockEntry tape.inputs,
      (output.2.val, input.2.val) ∈ (patterns input.1).positions ↔
        Passes tape.instructions input.slot output.slot := fun input =>
    ((represents input.1).mem_iff _ _).trans entryFlows_iff
  refine ⟨patterns, found, ?_, ?_⟩
  · intro first second firstShaped secondShaped agree
    have firstAnswers := evaluates.evaluate valid firstShaped
    have secondAnswers := evaluates.evaluate valid secondShaped
    rcases Seed.exists_ofVector algebra.zero firstShaped with ⟨firstEntries, rfl⟩
    rcases Seed.exists_ofVector algebra.zero secondShaped with ⟨secondEntries, rfl⟩
    refine ⟨_, _, _, fun options one => ⟨firstAnswers options one, secondAnswers options one⟩,
      entryOfRow?_ofVector _ output, ?_⟩
    rw [entryOfRow?_ofVector]
    congr 1
    apply executeAll_stored_congr
    intro input flows
    have same := agree input.1 input.2 ((stored_iff input).mpr flows)
    rw [entryOfRow?_ofVector, entryOfRow?_ofVector] at same
    exact (Option.some.inj same).symm
  · intro arithmetic computes known sum point shaped options one iind
    let work : Vector α tape.numSlots := .replicate tape.numSlots algebra.zero
    have evaluated := (evaluates.evaluate valid shaped options one).outcome work
    rcases computes.exists_runsTo valid evaluated with ⟨record, runs⟩
    refine ⟨_, _, computes.jacobianForward runs valid iind output.1,
      computes.jacobianReverse runs valid iind output.1, ?_⟩
    intro column inside notStored
    have apart := fun flows => notStored ((stored_iff ⟨iind, column, inside⟩).mpr flows)
    constructor
    · refine (entryOfRow?_blockRows _ output ⟨iind, column, inside⟩).trans ?_
      rw [Arithmetic.forwardJacobian_eq_zero known runs.records apart]
    · refine (entryOfRow?_blockRows _ output ⟨iind, column, inside⟩).trans ?_
      rw [Arithmetic.reverseJacobian_eq_zero known sum runs.records apart]

end Tape

/-- The second output of the rerouting tape is the sine of the second input: its value does not tell whether
the first input is a number, and at infinity, where the partial of the sine is not a number, the two other
derivatives still are zero. -/
theorem rerouting_sound : rerouting.validate = .ok () ∧
    (∃ firstValues secondValues value,
      (∀ options one,
        Session.Answers rerouting options (numbers .propagate : Algebra (Except Error) Float) one
          (Session.evaluate [[0 / 0, 2, 3]]) firstValues ∧
        Session.Answers rerouting options (numbers .propagate) one
          (Session.evaluate [[1, 2, 4]]) secondValues) ∧
      entryOfRow? firstValues 0 1 = some value ∧ entryOfRow? secondValues 0 1 = some value) ∧
    ∃ forward reverse,
      Session.Answers rerouting {} (numbers .propagate) (1 : Float)
        (Session.jacobianForward [[1, 1 / 0, 1]] 0 0) forward ∧
      Session.Answers rerouting {} (numbers .propagate) (1 : Float)
        (Session.jacobianReverse [[1, 1 / 0, 1]] 0 0) reverse ∧
      ∀ column ∈ [0, 2],
        entryOfRow? forward 1 column = some 0 ∧ entryOfRow? reverse 1 column = some 0 := by
  rcases Tape.jacobianPattern_sound (numbers_evaluates Float) rerouting_validate
    ⟨⟨0, by decide⟩, ⟨1, by decide⟩⟩ with ⟨patterns, found, values, derivatives⟩
  have onlySecond : ∀ (iind : Fin rerouting.inputs.length) (column : Nat),
      (1, column) ∈ (patterns iind).positions ↔ column = 1 := by
    intro iind column
    obtain rfl : iind = ⟨0, by decide⟩ := Fin.ext (Nat.lt_one_iff.mp iind.isLt)
    have known := Except.ok.inj ((found ⟨0, by decide⟩).symm.trans rerouting_jacobianPattern)
    simp [known, Pattern.positions]
  refine ⟨rerouting_validate, ?_, ?_⟩
  · apply values [[0 / 0, 2, 3]] [[1, 2, 4]] (by simp [Session.Shaped, rerouting])
      (by simp [Session.Shaped, rerouting])
    intro iind column stored
    obtain rfl : iind = ⟨0, by decide⟩ := Fin.ext (Nat.lt_one_iff.mp iind.isLt)
    simp [(onlySecond _ column).mp stored, entryOfRow?]
  · rcases derivatives _ (numbers_computes Float _) (by decide) (by decide) [[1, 1 / 0, 1]]
      (by simp [Session.Shaped, rerouting]) {} 1 ⟨0, by decide⟩ with
      ⟨forward, reverse, pushed, pulled, zeros⟩
    refine ⟨forward, reverse, pushed, pulled, ?_⟩
    intro column member
    apply zeros column
    · fin_cases member <;> decide
    · rw [onlySecond]
      fin_cases member <;> decide

end Autodiff
