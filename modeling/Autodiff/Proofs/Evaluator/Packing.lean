import Autodiff.Proofs.Evaluator.History
import Autodiff.Proofs.Evaluator.Outcomes

/-!
# Packed directions

The directions of a sweep share the arrays of an evaluator but not their values: each sensitivity is what
a sweep of its direction alone finds (`Tape.sweepAt_eq_ok_iff_each`). So it does not matter how the columns
or rows of a dense Jacobian are packed into sweeps, nor whether each row is found by a worker of its own.
-/

namespace Autodiff

variable {α β : Type}

/-! ## Directions -/

namespace Tape

variable {algebra : Algebra (Except Error) α} {tape : Tape} {point : List (List α)}
  {blocks : List Block} {moved : Record α → Seed α → Seed α} {seeds : List (Seed α)}

theorem sweepAt_eq_ok {result : Derivatives α} :
    tape.sweepAt algebra point blocks moved seeds = .ok result ↔
      (∀ seed ∈ seeds, Session.Shaped blocks seed) ∧
        ∃ record, tape.runAt algebra point = .ok (result.outputs, record) ∧
          result.sensitivities = seeds.map (moved record) := by
  simp only [sweepAt, bind_eq_ok, ← Session.checkSeeds_eq_ok]
  constructor
  · rintro ⟨_, checked, ⟨values, record⟩, ran, returned⟩
    cases returned
    exact ⟨checked, record, ran, rfl⟩
  · rintro ⟨checked, record, ran, moves⟩
    exact ⟨(), checked, _, ran, congrArg Except.ok (by rw [← moves])⟩

theorem sweepAt_eq_ok_iff_each {result : Derivatives α} :
    tape.sweepAt algebra point blocks moved seeds = .ok result ↔
      (Prod.fst <$> tape.runAt algebra point) = .ok result.outputs ∧
        List.Forall₂ (fun seed sensitivity =>
          tape.sweepAt algebra point blocks moved [seed] = .ok ⟨result.outputs, [sensitivity]⟩)
          seeds result.sensitivities := by
  simp only [map_runAt_eq_ok, sweepAt_eq_ok, List.mem_singleton, forall_eq, List.map_cons,
    List.map_nil, List.cons.injEq, and_true]
  constructor
  · rintro ⟨shaped, record, ran, moves⟩
    refine ⟨⟨record, ran⟩, ?_⟩
    rw [moves, List.forall₂_map_right_iff, List.forall₂_same]
    exact fun seed member => ⟨shaped seed member, record, ran, rfl⟩
  · rintro ⟨⟨record, ran⟩, each⟩
    have alone : List.Forall₂ (fun seed sensitivity =>
        Session.Shaped blocks seed ∧ moved record seed = sensitivity) seeds result.sensitivities := by
      apply each.imp
      rintro seed _ ⟨shaped, other, ranAgain, rfl⟩
      cases ran.symm.trans ranAgain
      exact ⟨shaped, rfl⟩
    refine ⟨fun seed member => ?_, record, ran, ?_⟩
    · rcases exists_related alone member with ⟨_, -, shaped, -⟩
      exact shaped
    · have moves : List.Forall₂ Eq (seeds.map (moved record)) result.sensitivities :=
        List.forall₂_map_left_iff.mpr (alone.imp fun _ _ both => both.2)
      rw [List.forall₂_eq_eq_eq] at moves
      exact moves.symm

/-- What is read from all sensitivities can be read from each of them after a run of its own. -/
theorem sensitivitiesAt_bind_mapM (read : Seed α → Except Error β) (seeds : List (Seed α)) :
    (tape.sensitivitiesAt algebra point moved seeds >>= fun found => found.mapM read) =
      seeds.mapM fun seed => (do
        let run ← tape.runAt algebra point
        read (moved run.2 seed)) := by
  cases ran : tape.runAt algebra point with
  | error cause =>
      cases seeds with
      | nil => rfl
      | cons seed others =>
          rw [sensitivitiesAt_of_error ran (by simp), List.mapM_cons]
          rfl
  | ok run => simp only [sensitivitiesAt_of_run ran, ok_bind, List.mapM_map, Function.comp_def]

end Tape

/-! ## Jacobians -/

namespace Session

variable {algebra : Algebra (Except Error) α} {tape : Tape} {options : EvalOptions} {one : α}
  (point : List (List α)) (moved : Record α → Seed α → Seed α) (iind oind : Nat)

theorem jacobianByColumns_sweepAt :
    (fresh algebra one tape options).jacobianByColumns (tape.sweepAt algebra point tape.inputs moved)
        iind oind = (do
      let input ← tape.block .input iind
      let output ← tape.block .output oind
      let columns ← tape.sensitivitiesAt algebra point moved
        ((List.range input.slots.length).map fun entry =>
          unitSeed algebra.zero one tape.inputs iind [entry])
      (List.range output.slots.length).mapM fun row =>
        columns.mapM fun column => column.entry oind row) := by
  apply bind_congr
  intro input
  apply bind_congr
  intro output
  dsimp only [fresh]
  rw [Tape.packed_sweepAt shaped_unitSeeds, unitSeeds, List.map_map]
  rfl

theorem jacobianByRows_sweepAt :
    (fresh algebra one tape options).jacobianByRows (tape.sweepAt algebra point tape.outputs moved)
        iind oind = (do
      let _ ← tape.block .input iind
      let output ← tape.block .output oind
      let rows ← tape.sensitivitiesAt algebra point moved
        ((List.range output.slots.length).map fun entry =>
          unitSeed algebra.zero one tape.outputs oind [entry])
      rows.mapM fun row => row.block iind) := by
  apply bind_congr
  intro input
  apply bind_congr
  intro output
  dsimp only [fresh]
  rw [Tape.packed_sweepAt shaped_unitSeeds, unitSeeds, List.map_map]
  rfl

theorem jacobianByRows_eq_mapM :
    (fresh algebra one tape options).jacobianByRows (tape.sweepAt algebra point tape.outputs moved)
        iind oind = (do
      let _ ← tape.block .input iind
      let output ← tape.block .output oind
      (List.range output.slots.length).mapM fun row => do
        let run ← tape.runAt algebra point
        (moved run.2 (unitSeed algebra.zero one tape.outputs oind [row])).block iind) := by
  rw [jacobianByRows_sweepAt]
  apply bind_congr
  intro _
  apply bind_congr
  intro output
  rw [Tape.sensitivitiesAt_bind_mapM, List.mapM_map]
  rfl

end Session

namespace Evaluator

section Rows

variable {tape : Tape} {options : EvalOptions} {algebra : Algebra (Except Error) α} {one : α}
  {arithmetic : Arithmetic α} (valid : tape.Valid) (computes : algebra.Computes arithmetic)
  (point : List (List α)) (iind oind : Nat)

include valid computes

theorem concludes_jacobianRow (row : Nat) :
    Concludes tape options algebra one (jacobianRow point iind oind row) (do
      let run ← tape.runAt algebra point
      (arithmetic.pulledSeed tape run.2
        (unitSeed algebra.zero one tape.outputs oind [row])).block iind) := by
  apply Concludes.get_bind
  rintro _ ⟨work⟩
  have swept : (tape.sweepAt algebra point tape.outputs (arithmetic.pulledSeed tape)
      ((Session.holding tape options algebra one work).unitSeeds tape.outputs oind [[row]]) >>= fun result =>
        result.sensitivities.head?.elim (.error (.violation .entryOutOfRange)) (·.block iind)) = (do
      let run ← tape.runAt algebra point
      (arithmetic.pulledSeed tape run.2
        (unitSeed algebra.zero one tape.outputs oind [row])).block iind) := by
    rw [Tape.sweepAt_of_shaped Session.shaped_unitSeeds, bind_assoc]
    rfl
  rw [← swept]
  refine (concludes_reverseAd valid computes point _).bind ?_
  rintro ⟨outputs, _ | ⟨seed, others⟩⟩
  · exact Concludes.compositional.throw _
  · exact Concludes.compositional.lift _

end Rows

theorem jacobianRows_eq [Scalar α] {tape : Tape} (valid : tape.Valid) (inputs : List (List α))
    (iind oind : Nat) {shares : List (List (Nat × Nat))}
    (spread : ∀ output, tape.outputs[oind]? = some output →
      shares.flatten.Perm (List.range output.slots.length).zipIdx)
    {evaluator : Evaluator α} (serves : Serves tape {} (numbers .propagate) Scalar.one evaluator) :
    jacobianRows tape inputs iind oind shares =
      (evaluator.perform (jacobianReverse inputs iind oind)).1 := by
  rw [(concludes_jacobianReverse valid (numbers_computes α _) inputs iind oind).outcome serves,
    Session.jacobianByRows_eq_mapM]
  apply bind_congr
  intro _
  have ends : Ends (fun _ => True) _ (tape.block .output oind) :=
    Session.ends_block (fun _ => trivial) tape .output oind
  rcases ends.outcome with ⟨output, found, isBlock⟩ | ⟨cause, -, missing⟩
  · rw [isBlock]
    exact collect_eq (concludes_jacobianRow valid (numbers_computes α _) inputs iind oind)
      (spread output found)
  · rw [missing]
    rfl

end Evaluator

/-! ## Main result -/

/-- Over all elements whose derivatives are computed by functions, the directions of a sweep are independent:
a sweep of any number of directions succeeds exactly if the point can be evaluated and each direction can be
swept alone, and it finds for each direction what this sweep finds. Hence Jacobians by columns and
by rows end in the same way for every number of directions per sweep, and a Jacobian whose rows are
spread over workers, in whatever way, ends as the one by rows does. -/
theorem Evaluator.directions_independent {tape : Tape} (checked : tape.validate = .ok ())
    {algebra : Algebra (Except Error) α} {arithmetic : Arithmetic α}
    (computes : algebra.Computes arithmetic) {options : EvalOptions} {one : α} {evaluator : Evaluator α}
    (serves : Serves tape options algebra one evaluator) (inputs : List (List α)) :
    (∀ seeds result, (evaluator.perform (forwardAd inputs seeds)).1 = .ok result ↔
      (evaluator.perform (evaluate inputs)).1 = .ok result.outputs ∧
      List.Forall₂ (fun seed sensitivity =>
        (evaluator.perform (forwardAd inputs [seed])).1 = .ok ⟨result.outputs, [sensitivity]⟩)
        seeds result.sensitivities) ∧
    (∀ seeds result, (evaluator.perform (reverseAd inputs seeds)).1 = .ok result ↔
      (evaluator.perform (evaluate inputs)).1 = .ok result.outputs ∧
      List.Forall₂ (fun seed sensitivity =>
        (evaluator.perform (reverseAd inputs [seed])).1 = .ok ⟨result.outputs, [sensitivity]⟩)
        seeds result.sensitivities) ∧
    (∀ (directions : Nat) (other : Evaluator α),
      Serves tape { options with directionsPerSweep := directions } algebra one other →
      ∀ iind oind,
        (other.perform (jacobianForward inputs iind oind)).1 =
          (evaluator.perform (jacobianForward inputs iind oind)).1 ∧
        (other.perform (jacobianReverse inputs iind oind)).1 =
          (evaluator.perform (jacobianReverse inputs iind oind)).1) ∧
    ∀ [Scalar α] (history : List (Call α)) (iind oind : Nat) (shares : List (List (Nat × Nat))),
      (∀ output, tape.outputs[oind]? = some output →
        shares.flatten.Perm (List.range output.slots.length).zipIdx) →
      jacobianRows tape inputs iind oind shares =
        (((new tape {}).after history).perform (jacobianReverse inputs iind oind)).1 := by
  have valid := Tape.valid_of_validate checked
  refine ⟨fun seeds result => ?_, fun seeds result => ?_, fun directions other otherServes iind oind => ?_,
    fun history iind oind shares spread => ?_⟩
  · simp only [(concludes_evaluate valid computes inputs).outcome serves,
      (concludes_forwardAd valid computes inputs _).outcome serves]
    exact Tape.sweepAt_eq_ok_iff_each
  · simp only [(concludes_evaluate valid computes inputs).outcome serves,
      (concludes_reverseAd valid computes inputs _).outcome serves]
    exact Tape.sweepAt_eq_ok_iff_each
  · constructor
    · rw [(concludes_jacobianForward valid computes inputs iind oind).outcome serves,
        (concludes_jacobianForward valid computes inputs iind oind).outcome otherServes,
        Session.jacobianByColumns_sweepAt, Session.jacobianByColumns_sweepAt]
    · rw [(concludes_jacobianReverse valid computes inputs iind oind).outcome serves,
        (concludes_jacobianReverse valid computes inputs iind oind).outcome otherServes,
        Session.jacobianByRows_sweepAt, Session.jacobianByRows_sweepAt]
  · exact jacobianRows_eq valid inputs iind oind spread (serves_after_new valid {} history)

/-- A tape that stores a sum over its first input and a product over its second. -/
def sumThenProduct : Tape :=
  ⟨[⟨.binary .add, 0, 0, 1, 0⟩, ⟨.binary .mul, 1, 0, 1, 0⟩], 2, [⟨"x", ⟨2, [[0, 1]]⟩, [0, 1]⟩],
    [⟨"y", ⟨2, [[0, 1]]⟩, [0, 1]⟩]⟩

theorem sumThenProduct_validate : sumThenProduct.validate = .ok () := by
  simp [sumThenProduct, Tape.validate, Tape.checkInputs, Tape.checkSlotCount, Tape.checkInputSlots,
    Tape.checkInstructions, Tape.checkOutputs, Instruction.spareOperands, Instruction.operands,
    Pattern.nnz]

/-- Three directions, one of them zero, in one sweep; the Jacobian with one direction per sweep and with as many
as can be counted; and its rows from two workers, the last one first. -/
theorem sumThenProduct_independent :
    let single : Evaluator Float := .new sumThenProduct { directionsPerSweep := 1 }
    let wide : Evaluator Float := .new sumThenProduct { directionsPerSweep := 2 ^ 64 - 1 }
    sumThenProduct.validate = .ok () ∧
    (single.perform (Evaluator.forwardAd [[2, 3]] [[[1, 0]], [[0, 0]], [[0, 1]]])).1 =
      .ok ⟨[[5, 15]], [[[1, 3]], [[0, 0]], [[1, 8]]]⟩ ∧
    (wide.perform (Evaluator.jacobianForward [[2, 3]] 0 0)).1 = .ok [[1, 1], [3, 8]] ∧
    Evaluator.jacobianRows sumThenProduct [[2, 3]] 0 0 [[(1, 1)], [(0, 0)]] =
      .ok [[1, 1], [3, (8 : Float)]] := by
  have independent := Evaluator.directions_independent sumThenProduct_validate
    (numbers_computes Float .propagate) (Evaluator.serves_new _ { directionsPerSweep := 1 }) [[2, 3]]
  refine ⟨sumThenProduct_validate, (independent.1 _ _).mpr ⟨by decide +kernel, ?_⟩, ?_, ?_⟩
  · exact .cons (by decide +kernel) (.cons (by decide +kernel) (.cons (by decide +kernel) .nil))
  · exact (independent.2.2.1 _ _ (Evaluator.serves_new ..) 0 0).1.trans (by decide +kernel)
  · refine (independent.2.2.2 [] 0 0 _ ?_).trans (by decide +kernel)
    rintro output ⟨⟩
    decide

end Autodiff
