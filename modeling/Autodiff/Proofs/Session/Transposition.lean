import Autodiff.Proofs.Session.UnitDirections

/-!
# Forward and reverse mode are transposes

All derivative calls of a session at one point use the same matrix. Forward sweeps multiply by it, reverse
sweeps multiply by its transpose, and Jacobians and gradients are its blocks and rows. The matrix
depends on the tape, the elements and the point, and neither on the settings nor on earlier calls.
-/

namespace Autodiff

open Matrix

variable {α : Type}

namespace Tape.RunsTo

variable [CommSemiring α] {algebra : Algebra (Except Error) α} {tape : Tape}
  {point values : List (List α)} {record : Record α} {options : EvalOptions}

theorem forwardJacobian_linear (valid : tape.Valid) (records : tape.Records record) :
    (Arithmetic.linear α).forwardJacobian 1 tape record = tape.sensitivity record := by
  ext output input
  have unit : unitSeed (Arithmetic.linear α).zero 1 tape.inputs input.1 [input.2.val] =
      Seed.ofVector tape.inputs (Pi.single input 1) := Seed.unitSeed_eq input
  have shaped := Seed.shaped_ofVector (Pi.single input (1 : α))
  have start : stored (Arithmetic.linear α).zero tape.inputs _ = _ := stored_inputs valid shaped
  rw [Arithmetic.forwardJacobian, Matrix.of_apply, Arithmetic.jointColumn, unit, start,
    Arithmetic.pushAll_linear,
    pushed_seed valid (records.below valid) shaped, Seed.vector_ofVector,
    Matrix.mulVec_single_one]
  rfl

theorem reverseJacobian_linear (valid : tape.Valid) (records : tape.Records record) :
    (Arithmetic.linear α).reverseJacobian 1 tape record = tape.sensitivity record := by
  ext output input
  have unit : unitSeed (Arithmetic.linear α).zero 1 tape.outputs output.1 [output.2.val] =
      Seed.ofVector tape.outputs (Pi.single output 1) := Seed.unitSeed_eq output
  have shaped := Seed.shaped_ofVector (Pi.single output (1 : α))
  rw [Arithmetic.reverseJacobian, Matrix.of_apply, Arithmetic.jointRow, unit,
    Arithmetic.adjointsOf_linear, Arithmetic.pullAll_linear,
    pulled_seed valid (records.below valid) shaped, Seed.vector_ofVector,
    Matrix.mulVec_single_one]
  rfl

variable (runs : tape.RunsTo algebra point values record) (valid : tape.Valid) (exact : algebra.Exact)
include runs valid exact

theorem jacobianForward (iind : Fin tape.inputs.length) (oind : Fin tape.outputs.length) :
    Session.Answers tape options algebra 1 (Session.jacobianForward point iind oind)
      (blockRows (tape.sensitivity record) iind oind) := by
  rw [← forwardJacobian_linear valid runs.records]
  exact exact.computes.jacobianForward runs valid iind oind

theorem jacobianReverse (iind : Fin tape.inputs.length) (oind : Fin tape.outputs.length) :
    Session.Answers tape options algebra 1 (Session.jacobianReverse point iind oind)
      (blockRows (tape.sensitivity record) iind oind) := by
  rw [← reverseJacobian_linear valid runs.records]
  exact exact.computes.jacobianReverse runs valid iind oind

theorem jacobian (iind : Fin tape.inputs.length) (oind : Fin tape.outputs.length) :
    Session.Answers tape options algebra 1 (Session.jacobian point iind oind)
      (blockRows (tape.sensitivity record) iind oind) := by
  refine .get_bind fun work => ?_
  refine (Session.Answers.lift (tape.block_input iind)).bind ?_
  refine (Session.Answers.lift (tape.block_output oind)).bind ?_
  split
  · exact runs.jacobianForward valid exact iind oind
  · exact runs.jacobianReverse valid exact iind oind

theorem gradient (output : BlockEntry tape.outputs) (scalar : (tape.outputs.get output.1).slots.length = 1) :
    Session.Answers tape options algebra 1 (Session.gradient point output.1)
      (Seed.ofVector tape.inputs (tape.sensitivity record output)) := by
  refine .get_bind fun work => ?_
  refine (Session.Answers.lift (tape.block_output output.1)).bind ?_
  have unit : (Session.holding tape options algebra 1 work).unitSeeds
      (Session.holding tape options algebra 1 work).tape.outputs output.1 [[0]] =
      [Seed.ofVector tape.outputs (Pi.single output 1)] := by
    have first : output.2.val = 0 := by omega
    rw [Session.unitSeeds, Session.holding, exact.zero, List.map_singleton, ← first,
      Seed.unitSeed_eq]
  simp only [scalar, ne_eq, not_true_eq_false, if_false, unit]
  refine (runs.reverseAd valid exact fun seed member => ?_).bind ?_
  · rw [List.mem_singleton.mp member]
    exact Seed.shaped_ofVector _
  · rw [List.map_singleton, Seed.vector_ofVector, Matrix.mulVec_single_one]
    exact .pure _

end Tape.RunsTo

/-! ## One matrix for all calls -/

/-- The calls of a session on a tape, at a point with given output values, take all derivatives from one
matrix. -/
structure Session.Differentiates [CommSemiring α] (session : Session α) (tape : Tape)
    (point values : List (List α))
    (matrix : Matrix (BlockEntry tape.outputs) (BlockEntry tape.inputs) α) : Prop where
  /-- Every direction of a forward sweep is the matrix times its seed. -/
  forwardAd : ∀ seeds : List (Seed α), (∀ seed ∈ seeds, Shaped tape.inputs seed) →
    (session.perform (Session.forwardAd point seeds)).1 = .ok ⟨values, seeds.map fun seed =>
      Seed.ofVector tape.outputs (matrix *ᵥ seed.vector tape.inputs)⟩
  /-- Every direction of a reverse sweep is the transposed matrix times its seed. -/
  reverseAd : ∀ seeds : List (Seed α), (∀ seed ∈ seeds, Shaped tape.outputs seed) →
    (session.perform (Session.reverseAd point seeds)).1 = .ok ⟨values, seeds.map fun seed =>
      Seed.ofVector tape.inputs (matrixᵀ *ᵥ seed.vector tape.outputs)⟩
  jacobianForward : ∀ (iind : Fin tape.inputs.length) (oind : Fin tape.outputs.length),
    (session.perform (Session.jacobianForward point iind oind)).1 =
      .ok (blockRows matrix iind oind)
  jacobianReverse : ∀ (iind : Fin tape.inputs.length) (oind : Fin tape.outputs.length),
    (session.perform (Session.jacobianReverse point iind oind)).1 =
      .ok (blockRows matrix iind oind)
  jacobian : ∀ (iind : Fin tape.inputs.length) (oind : Fin tape.outputs.length),
    (session.perform (Session.jacobian point iind oind)).1 = .ok (blockRows matrix iind oind)
  /-- The gradient of an output with one entry is the row of this entry. -/
  gradient : ∀ output : BlockEntry tape.outputs, (tape.outputs.get output.1).slots.length = 1 →
    (session.perform (Session.gradient point output.1)).1 =
      .ok (Seed.ofVector tape.inputs (matrix output))

theorem Tape.RunsTo.differentiates [CommSemiring α] {algebra : Algebra (Except Error) α}
    {tape : Tape} {point values : List (List α)} {record : Record α}
    (runs : tape.RunsTo algebra point values record) (valid : tape.Valid) (exact : algebra.Exact)
    (options : EvalOptions) (work : Vector α tape.numSlots) :
    (Session.holding tape options algebra 1 work).Differentiates tape point values
      (tape.sensitivity record) where
  forwardAd _ shaped := (runs.forwardAd valid exact shaped).outcome work
  reverseAd _ shaped := (runs.reverseAd valid exact shaped).outcome work
  jacobianForward iind oind := (runs.jacobianForward valid exact iind oind).outcome work
  jacobianReverse iind oind := (runs.jacobianReverse valid exact iind oind).outcome work
  jacobian iind oind := (runs.jacobian valid exact iind oind).outcome work
  gradient output scalar := (runs.gradient valid exact output scalar).outcome work

/-- Forward and reverse mode are transposes of each other, over every commutative semiring and on every
valid tape. First, for every assignment of partials to the instructions there is one matrix by
which seeds are pushed forward, and by whose transpose they are pulled back. Second, at every point there
is one matrix from which every session, with any settings and after any earlier calls, takes all of its
derivatives, as soon as the outputs can be evaluated there; and they can if every operation has an accepted
result. -/
theorem Tape.forward_reverse_transpose [CommSemiring α] {algebra : Algebra (Except Error) α}
    {tape : Tape} (validated : tape.validate = .ok ()) (exact : algebra.Exact) :
    (∀ record : Record α, tape.Records record →
      ∃ matrix : Matrix (BlockEntry tape.outputs) (BlockEntry tape.inputs) α,
        (∀ seed : Seed α, Session.Shaped tape.inputs seed → tape.pushSeed algebra record seed =
          .ok (Seed.ofVector tape.outputs (matrix *ᵥ seed.vector tape.inputs))) ∧
        ∀ seed : Seed α, Session.Shaped tape.outputs seed → tape.pullSeed algebra record seed =
          .ok (Seed.ofVector tape.inputs (matrixᵀ *ᵥ seed.vector tape.outputs))) ∧
    ∀ point, Session.Shaped tape.inputs point →
      ∃ matrix : Matrix (BlockEntry tape.outputs) (BlockEntry tape.inputs) α,
        ∀ (options : EvalOptions) (work : Vector α tape.numSlots),
          let session := Session.holding tape options algebra 1 work
          (algebra.Total → ∃ values, (session.perform (Session.evaluate point)).1 = .ok values) ∧
          ∀ values, (session.perform (Session.evaluate point)).1 = .ok values →
            session.Differentiates tape point values matrix := by
  have valid := valid_of_validate validated
  constructor
  · intro record records
    exact ⟨tape.sensitivity record, fun seed shaped => pushSeed_eq valid exact records shaped,
      fun seed shaped => pullSeed_eq valid exact records shaped⟩
  · intro point shaped
    by_cases runs : ∃ values record, tape.RunsTo algebra point values record
    · rcases runs with ⟨values, record, runs⟩
      refine ⟨tape.sensitivity record, fun options work => ⟨fun total =>
        exists_evaluate valid total shaped options 1 work, fun other evaluated => ?_⟩⟩
      have same := ((runs.evaluate valid).outcome work).symm.trans evaluated
      cases Except.ok.inj same
      exact runs.differentiates valid exact options work
    · refine ⟨0, fun options work => ⟨fun total =>
        exists_evaluate valid total shaped options 1 work, fun values evaluated => ?_⟩⟩
      exact absurd ⟨values, exists_runsTo valid exact evaluated⟩ runs

/-- Natural numbers with multiplication as every operation. -/
def naturals : Algebra (Except Error) Nat where
  zero := 0
  constant _ := .ok 1
  eval _ left right := .ok (left * right)
  partials _ left right _ := .ok (right, left)
  add left right := .ok (left + right)
  mul left right := .ok (left * right)
  isZero element := .ok (element == 0)
  admissible _ _ _ _ := true

/-- A tape that reads an operand twice, overwrites both inputs and lists one slot in two outputs. -/
def overwriting : Tape :=
  ⟨[⟨.binary .mul, 0, 0, 0, 0⟩, ⟨.binary .mul, 1, 0, 1, 0⟩], 2, [⟨"x", ⟨2, [[0, 1]]⟩, [0, 1]⟩],
    [⟨"y", ⟨2, [[0, 1]]⟩, [1, 0]⟩, ⟨"z", ⟨1, [[0]]⟩, [1]⟩]⟩

/-- The two modes on the overwriting tape. -/
theorem overwriting_transpose : overwriting.validate = .ok () ∧ naturals.Exact ∧
    ∃ matrix : Matrix (BlockEntry overwriting.outputs) (BlockEntry overwriting.inputs) Nat,
      ∀ (options : EvalOptions) (work : Vector Nat overwriting.numSlots), ∃ values,
        (Session.holding overwriting options naturals 1 work).Differentiates overwriting [[2, 3]]
          values matrix := by
  have validated : overwriting.validate = .ok () := by
    simp [overwriting, Tape.validate, Tape.checkInputs, Tape.checkSlotCount, Tape.checkInputSlots,
      Tape.checkInstructions, Tape.checkOutputs, Instruction.spareOperands, Instruction.operands,
      Pattern.nnz]
  have exact : naturals.Exact := ⟨rfl, fun _ _ => rfl, fun _ _ => rfl,
    fun element => ⟨element == 0, rfl, beq_iff_eq⟩, fun _ _ _ _ => ⟨_, rfl⟩⟩
  have total : naturals.Total := ⟨fun _ => ⟨1, rfl⟩, fun _ _ _ _ => ⟨_, rfl, rfl⟩⟩
  have shaped : Session.Shaped overwriting.inputs [[2, 3]] := .cons rfl .nil
  rcases (Tape.forward_reverse_transpose validated exact).2 [[2, 3]] shaped with ⟨matrix, answers⟩
  refine ⟨validated, exact, matrix, fun options work => ?_⟩
  rcases (answers options work).1 total with ⟨values, evaluated⟩
  exact ⟨values, (answers options work).2 values evaluated⟩

end Autodiff
