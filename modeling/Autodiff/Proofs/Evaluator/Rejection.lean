import Autodiff.Proofs.Evaluator.History
import Autodiff.Proofs.Evaluator.Outcomes
import Autodiff.Proofs.Session.Runs

/-!
# Rejection

Under the policy that rejects, a run stops at the first instruction that leaves its domain: its operands are finite in
the run that rejects nothing, and its result there is not. Up to this instruction both runs hold the same elements, so
without such an instruction they find the same outputs. Nothing is assumed of the operations, of their
derivatives or of what counts as finite (`Calculus`).
-/

namespace Autodiff

variable {op : Opcode} {index : Nat} {α : Type}

/-- A meaning of the opcodes with rules for their partials, the arithmetic of derivatives and the elements that
count as finite. -/
structure Calculus (α : Type) extends Meaning α, Arithmetic α where
  partials : Opcode → α → α → α → α × α
  finite : α → Bool

namespace Calculus

/-- The elements of a calculus. Under the policy `reject` a result that is not finite is only
acceptable if some operand that is read was not finite. -/
def elements (calculus : Calculus α) (policy : DomainPolicy) : Algebra (Except Error) α where
  zero := calculus.zero
  constant literal := .ok (calculus.literal literal)
  eval op first second :=
    match op with
    | .const => .error (.violation (.wrongArity .const))
    | .unary op => .ok (calculus.unary op first)
    | .binary op => .ok (calculus.binary op first second)
  partials op first second result := .ok (calculus.partials op first second result)
  add left right := .ok (calculus.add left right)
  mul left right := .ok (calculus.mul left right)
  isZero element := .ok (calculus.isZero element)
  admissible op first second result :=
    match policy with
    | .propagate => true
    | .reject => !(calculus.finite first && (!op.isBinary || calculus.finite second) &&
        !calculus.finite result)

def ofScalar (α : Type) [scalar : Scalar α] : Calculus α :=
  { scalar.meaning, scalar.arithmetic with partials := Opcode.partials, finite := scalar.isFinite }

theorem elements_ofScalar [scalar : Scalar α] (policy : DomainPolicy) :
    (ofScalar α).elements policy = numbers policy := by
  have evaluated : ((ofScalar α).elements policy).eval = Opcode.apply := by
    funext op first second
    cases op <;> rfl
  unfold elements at evaluated ⊢
  unfold numbers
  congr

variable (calculus : Calculus α)

theorem evaluates : (calculus.elements .propagate).Evaluates calculus.toMeaning where
  constant _ := rfl
  unary _ _ := rfl
  binary _ _ _ := rfl
  admissible _ _ _ _ := rfl

theorem computes (policy : DomainPolicy) :
    (calculus.elements policy).Computes calculus.toArithmetic where
  zero := rfl
  add _ _ := rfl
  mul _ _ := rfl
  isZero _ := rfl
  partials _ _ _ _ := ⟨_, rfl⟩

/-! ## Steps -/

/-- All operands that the instruction reads are finite and its result is not. -/
def Leaves (instruction : Instruction) (value : Nat → α) : Prop :=
  instruction.op ≠ .const ∧ (∀ slot ∈ instruction.operands, calculus.finite (value slot)) ∧
    ¬ calculus.finite (instruction.result calculus.toMeaning value)

instance (instruction : Instruction) (value : Nat → α) : Decidable (calculus.Leaves instruction value) :=
  inferInstanceAs (Decidable (instruction.op ≠ .const ∧
    (∀ slot ∈ instruction.operands, calculus.finite (value slot)) ∧ ¬ calculus.finite _))

variable {calculus} {size : Nat} {value : Nat → α} {instruction : Instruction}

theorem step_reject (inside : ∀ operand ∈ instruction.operands, operand < size) (index : Nat) :
    instruction.step (calculus.elements .reject) index (slotArray size value) =
      if calculus.Leaves instruction value then .error (.evaluation (.domain index instruction.op))
      else .ok (instruction.executed calculus.toMeaning calculus.zero value) := by
  rcases instruction with ⟨_ | op | op, out, fst, snd, literal⟩
  · -- A literal is written without a check, finite or not.
    have stays : ¬ calculus.Leaves ⟨.const, out, fst, snd, literal⟩ value := fun leaves => leaves.1 rfl
    rw [if_neg stays]
    rfl
  · have fstInside := inside fst (by simp [Instruction.operands])
    -- The zero that stands for the missing operand is not looked at.
    have accepted : (calculus.elements .reject).admissible (.unary op) (value fst) calculus.zero
        (calculus.unary op (value fst)) = true ↔
          ¬ calculus.Leaves ⟨.unary op, out, fst, snd, literal⟩ value := by
      grind [elements, Leaves, Instruction.operands, Instruction.result, Opcode.isBinary]
    simp only [Instruction.step, Instruction.load, readSlot_slotArray fstInside, pure_bind]
    change (if (calculus.elements .reject).admissible (.unary op) (value fst) calculus.zero
      (calculus.unary op (value fst)) = true then _ else _) = _
    rw [if_congr accepted rfl rfl, ite_not]
    rfl
  · have fstInside := inside fst (by simp [Instruction.operands])
    have sndInside := inside snd (by simp [Instruction.operands])
    have accepted : (calculus.elements .reject).admissible (.binary op) (value fst) (value snd)
        (calculus.binary op (value fst) (value snd)) = true ↔
          ¬ calculus.Leaves ⟨.binary op, out, fst, snd, literal⟩ value := by
      grind [elements, Leaves, Instruction.operands, Instruction.result, Opcode.isBinary]
    simp only [Instruction.step, Instruction.load, readSlot_slotArray fstInside,
      readSlot_slotArray sndInside, pure_bind]
    change (if (calculus.elements .reject).admissible (.binary op) (value fst) (value snd)
      (calculus.binary op (value fst) (value snd)) = true then _ else _) = _
    rw [if_congr accepted rfl rfl, ite_not]
    rfl

theorem primalStep_of_leaves (below : instruction.Below size) (index : Nat)
    (leaves : calculus.Leaves instruction value) :
    primalStep (calculus.elements .reject) (slotArray size value) (instruction, index) =
      .error (.evaluation (.domain index instruction.op)) := by
  rw [primalStep, step_reject below.operands, if_pos leaves]
  rfl

theorem primalStep_of_stays (below : instruction.Below size) (index : Nat)
    (stays : ¬ calculus.Leaves instruction value) :
    primalStep (calculus.elements .reject) (slotArray size value) (instruction, index) =
      .ok (slotArray size (instruction.execute calculus.toMeaning value)) := by
  rw [primalStep, step_reject below.operands, if_neg stays, ok_bind, writeSlot_slotArray below.out,
    Instruction.result_executed]
  rfl

/-! ## Runs -/

variable (calculus) in
/-- The instruction with a number leaves its domain in the run that rejects nothing. -/
def LeavesAt (instructions : List Instruction) (value : Nat → α) (index : Nat) (op : Opcode) : Prop :=
  ∃ instruction, instructions[index]? = some instruction ∧ instruction.op = op ∧
    calculus.Leaves instruction (executeAll calculus.toMeaning (instructions.take index) value)

theorem leavesAt_zero {instructions : List Instruction} :
    calculus.LeavesAt (instruction :: instructions) value 0 op ↔
      instruction.op = op ∧ calculus.Leaves instruction value := by
  simp [LeavesAt, executeAll]

theorem leavesAt_succ {instructions : List Instruction} :
    calculus.LeavesAt (instruction :: instructions) value (index + 1) op ↔
      calculus.LeavesAt instructions (instruction.execute calculus.toMeaning value) index op := by
  simp [LeavesAt, executeAll]

section Runs

variable {instructions : List Instruction} (below : ∀ instruction ∈ instructions, instruction.Below size)

include below

theorem primal_of_stays (stays : ∀ index op, ¬ calculus.LeavesAt instructions value index op)
    (start : Nat) :
    (instructions.zipIdx start).foldlM (primalStep (calculus.elements .reject)) (slotArray size value) =
      .ok (slotArray size (executeAll calculus.toMeaning instructions value)) := by
  induction instructions generalizing value start with
  | nil => rfl
  | cons instruction instructions ih =>
      rw [List.forall_mem_cons] at below
      have first : ¬ calculus.Leaves instruction value :=
        fun leaves => stays 0 _ (leavesAt_zero.mpr ⟨rfl, leaves⟩)
      have rest (index : Nat) (op : Opcode) : ¬ calculus.LeavesAt instructions
          (instruction.execute calculus.toMeaning value) index op :=
        fun leaves => stays (index + 1) op (leavesAt_succ.mpr leaves)
      rw [List.zipIdx_cons, List.foldlM_cons, primalStep_of_stays below.1 start first, ok_bind,
        ih below.2 rest]
      rfl

theorem primal_of_leaves (leaves : calculus.LeavesAt instructions value index op)
    (earlier : ∀ before < index, ∀ other, ¬ calculus.LeavesAt instructions value before other) (start : Nat) :
    (instructions.zipIdx start).foldlM (primalStep (calculus.elements .reject)) (slotArray size value) =
      .error (.evaluation (.domain (start + index) op)) := by
  induction instructions generalizing value start index with
  | nil => simp [LeavesAt] at leaves
  | cons instruction instructions ih =>
      rw [List.forall_mem_cons] at below
      rw [List.zipIdx_cons, List.foldlM_cons]
      cases index with
      | zero =>
          rcases leavesAt_zero.mp leaves with ⟨rfl, here⟩
          rw [primalStep_of_leaves below.1 start here]
          rfl
      | succ index =>
          have first : ¬ calculus.Leaves instruction value :=
            fun leaves => earlier 0 (Nat.succ_pos _) _ (leavesAt_zero.mpr ⟨rfl, leaves⟩)
          rw [primalStep_of_stays below.1 start first, ok_bind,
            ih below.2 (leavesAt_succ.mp leaves), Nat.add_right_comm, Nat.add_assoc]
          intro before less other leaves
          exact earlier (before + 1) (Nat.succ_lt_succ less) other (leavesAt_succ.mpr leaves)

end Runs

/-! ## Values at a point -/

variable (calculus) in
/-- The instruction with a number is the first one that leaves its domain at a point. -/
def LeavesFirst (tape : Tape) (point : List (List α)) (index : Nat) (op : Opcode) : Prop :=
  let start := stored calculus.zero tape.inputs point
  calculus.LeavesAt tape.instructions start index op ∧
    ∀ before < index, ∀ other, ¬ calculus.LeavesAt tape.instructions start before other

variable (calculus) in
/-- The outputs at a point if nothing is rejected. -/
def outputsAt (tape : Tape) (point : List (List α)) : List (List α) :=
  tape.outputs.map fun block => block.slots.map
    (executeAll calculus.toMeaning tape.instructions (stored calculus.zero tape.inputs point))

theorem exists_leavesFirst {tape : Tape} {point : List (List α)}
    (leaves : calculus.LeavesAt tape.instructions (stored calculus.zero tape.inputs point) index op) :
    ∃ index op, calculus.LeavesFirst tape point index op := by
  induction index using Nat.strong_induction_on generalizing op with
  | _ index ih =>
      by_cases earlier : ∃ before < index, ∃ other, calculus.LeavesAt tape.instructions
          (stored calculus.zero tape.inputs point) before other
      · rcases earlier with ⟨before, less, other, leaves⟩
        exact ih before less leaves
      · push Not at earlier
        exact ⟨index, op, leaves, earlier⟩

variable {tape : Tape} (valid : tape.Valid) {point : List (List α)}
  (shaped : Session.Shaped tape.inputs point)

include valid shaped

theorem values_of_primal {policy : DomainPolicy} {outcome : Except Error (Array α)}
    (ran : tape.primal (calculus.elements policy)
      (slotArray tape.numSlots (stored calculus.zero tape.inputs point)) = outcome) :
    (Prod.fst <$> tape.runAt (calculus.elements policy) point) = (do
      let final ← outcome
      readBlocks tape.outputs final) := by
  rw [Tape.map_runAt (calculus.computes policy), Session.checkPoint_eq_ok.mpr shaped, ok_bind,
    Session.place_replicate valid.inputsBelow, ← ran]
  rfl

theorem values_propagate : (Prod.fst <$> tape.runAt (calculus.elements .propagate) point) =
    .ok (calculus.outputsAt tape point) := by
  rw [values_of_primal valid shaped (calculus.evaluates.primal _ valid.instructionsBelow 0), ok_bind,
    readBlocks_slotArray valid.outputsBelow]
  rfl

theorem values_reject_of_stays (stays : ∀ index op, ¬ calculus.LeavesFirst tape point index op) :
    (Prod.fst <$> tape.runAt (calculus.elements .reject) point) =
      .ok (calculus.outputsAt tape point) := by
  have nowhere (index : Nat) (op : Opcode) : ¬ calculus.LeavesAt tape.instructions
      (stored calculus.zero tape.inputs point) index op := by
    intro leaves
    rcases exists_leavesFirst leaves with ⟨first, other, isFirst⟩
    exact stays first other isFirst
  rw [values_of_primal valid shaped (primal_of_stays valid.instructionsBelow nowhere 0), ok_bind,
    readBlocks_slotArray valid.outputsBelow]
  rfl

theorem values_reject_of_leaves (leaves : calculus.LeavesFirst tape point index op) :
    (Prod.fst <$> tape.runAt (calculus.elements .reject) point) =
      .error (.evaluation (.domain index op)) := by
  rw [values_of_primal valid shaped (primal_of_leaves valid.instructionsBelow leaves.1 leaves.2 0),
    Nat.zero_add]
  rfl

theorem values_reject_eq_error :
    (Prod.fst <$> tape.runAt (calculus.elements .reject) point) =
        .error (.evaluation (.domain index op)) ↔ calculus.LeavesFirst tape point index op := by
  refine ⟨fun stopped => ?_, values_reject_of_leaves valid shaped⟩
  by_cases leaves : ∃ first other, calculus.LeavesFirst tape point first other
  · rcases leaves with ⟨first, other, isFirst⟩
    rw [values_reject_of_leaves valid shaped isFirst] at stopped
    cases stopped
    exact isFirst
  · push Not at leaves
    rw [values_reject_of_stays valid shaped leaves] at stopped
    cases stopped

end Calculus

/-! ## Main result -/

namespace Evaluator

/-- The outputs that evaluation, evaluation into buffers and the two derivatives find, each in a loop of its
own. -/
def primalOutcomes (evaluator : Evaluator α) (point buffers : List (List α))
    (tangents adjoints : List (Seed α)) : List (Except Error (List (List α))) :=
  let filling := evaluator.performInto buffers (evaluateInto point)
  [(evaluator.perform (evaluate point)).1, (fun _ => filling.2.2) <$> filling.1,
    Derivatives.outputs <$> (evaluator.perform (forwardAd point tangents)).1,
    Derivatives.outputs <$> (evaluator.perform (reverseAd point adjoints)).1]

theorem primalOutcomes_eq {tape : Tape} {options : EvalOptions} {algebra : Algebra (Except Error) α}
    {one : α} {arithmetic : Arithmetic α} (valid : tape.Valid) (computes : algebra.Computes arithmetic)
    {evaluator : Evaluator α} (serves : Serves tape options algebra one evaluator)
    {point buffers : List (List α)} {tangents adjoints : List (Seed α)}
    (tangentsShaped : ∀ seed ∈ tangents, Session.Shaped tape.inputs seed)
    (adjointsShaped : ∀ seed ∈ adjoints, Session.Shaped tape.outputs seed)
    (counted : buffers.length = tape.outputs.length) :
    evaluator.primalOutcomes point buffers tangents adjoints =
      List.replicate 4 (Prod.fst <$> tape.runAt algebra point) := by
  have evaluated := (concludes_evaluate valid computes point).outcome serves
  have filled : (fun _ => (evaluator.performInto buffers (evaluateInto point)).2.2) <$>
      (evaluator.performInto buffers (evaluateInto point)).1 = Prod.fst <$> tape.runAt algebra point := by
    rw [performInto_evaluateInto valid serves buffers point counted, ← evaluated]
    rcases evaluator.perform (evaluate point) with ⟨_ | _, _⟩ <;> rfl
  have outputs {blocks : List Block} {moved : Record α → Seed α → Seed α} {seeds : List (Seed α)}
      (shaped : ∀ seed ∈ seeds, Session.Shaped blocks seed) :
      Derivatives.outputs <$> tape.sweepAt algebra point blocks moved seeds =
        Prod.fst <$> tape.runAt algebra point := by
    rw [Tape.sweepAt_of_shaped shaped]
    cases tape.runAt algebra point <;> rfl
  simp only [primalOutcomes, evaluated, filled,
    (concludes_forwardAd valid computes point tangents).outcome serves, outputs tangentsShaped,
    (concludes_reverseAd valid computes point adjoints).outcome serves, outputs adjointsShaped]
  rfl

/-- Rejection is to stop at the first violation. On a valid tape, whatever the opcodes mean and whatever counts as
finite, at every point of the right shape: a sweep that rejects nothing follows the plain run, instruction by
instruction, and evaluators that reject nothing find its outputs in all four loops; evaluators that reject
fail in each loop with an instruction and its opcode exactly if this instruction is the first that turns finite
operands into a result that is not finite in the plain run, and if there is none they find the same outputs. -/
theorem reject_stops_at_first_violation {tape : Tape} (checked : tape.validate = .ok ())
    (calculus : Calculus α) {options otherOptions : EvalOptions} {one otherOne : α}
    {strict lenient : Evaluator α}
    (strictServes : Serves tape options (calculus.elements .reject) one strict)
    (lenientServes : Serves tape otherOptions (calculus.elements .propagate) otherOne lenient)
    {point buffers : List (List α)} (shaped : Session.Shaped tape.inputs point)
    (counted : buffers.length = tape.outputs.length) {tangents adjoints : List (Seed α)}
    (tangentsShaped : ∀ seed ∈ tangents, Session.Shaped tape.inputs seed)
    (adjointsShaped : ∀ seed ∈ adjoints, Session.Shaped tape.outputs seed) :
    (∀ count, (tape.instructions.take count).zipIdx.foldlM
        (Autodiff.primalStep (calculus.elements .propagate))
        (Session.place (seedSlots tape.inputs point) (Array.replicate tape.numSlots calculus.zero)) =
      .ok (slotArray tape.numSlots (executeAll calculus.toMeaning (tape.instructions.take count)
        (stored calculus.zero tape.inputs point)))) ∧
    (∀ outcome ∈ lenient.primalOutcomes point buffers tangents adjoints,
      outcome = .ok (calculus.outputsAt tape point)) ∧
    ∀ outcome ∈ strict.primalOutcomes point buffers tangents adjoints,
      (∀ index op, outcome = .error (.evaluation (.domain index op)) ↔
        calculus.LeavesFirst tape point index op) ∧
      ((∀ index op, ¬ calculus.LeavesFirst tape point index op) →
        outcome = .ok (calculus.outputsAt tape point)) := by
  have valid := Tape.valid_of_validate checked
  rw [primalOutcomes_eq valid (calculus.computes _) lenientServes tangentsShaped adjointsShaped counted,
    primalOutcomes_eq valid (calculus.computes _) strictServes tangentsShaped adjointsShaped counted]
  refine ⟨?_, ?_, ?_⟩
  · intro count
    rw [Session.place_replicate valid.inputsBelow]
    exact calculus.evaluates.primal _
      (fun _ member => valid.instructionsBelow _ (List.mem_of_mem_take member)) 0
  · intro outcome member
    rw [List.eq_of_mem_replicate member, Calculus.values_propagate valid shaped]
  · intro outcome member
    rw [List.eq_of_mem_replicate member]
    exact ⟨fun index op => Calculus.values_reject_eq_error valid shaped,
      Calculus.values_reject_of_stays valid shaped⟩

end Evaluator

/-- The square of the double of a large number overflows: the second instruction is the first to leave its domain,
and a gradient that rejects nothing still comes with the outputs of the plain run. -/
theorem doubledSquare_leavesFirst :
    let calculus := Calculus.ofScalar Float
    let lenient : Evaluator Float := .new doubledSquare {}
    doubledSquare.validate = .ok () ∧ Session.Shaped doubledSquare.inputs [[(1e200 : Float)]] ∧
    calculus.LeavesFirst doubledSquare [[1e200]] 1 (.binary .mul) ∧
    Derivatives.outputs <$> (lenient.perform (Evaluator.reverseAd [[1e200]] [[[1]]])).1 =
      .ok (calculus.outputsAt doubledSquare [[1e200]]) := by
  have strictServes := Evaluator.serves_new (α := Float) doubledSquare { domainPolicy := .reject }
  have lenientServes := Evaluator.serves_new (α := Float) doubledSquare {}
  rw [← Calculus.elements_ofScalar] at strictServes lenientServes
  have shaped : Session.Shaped doubledSquare.inputs [[(1e200 : Float)]] := .cons rfl .nil
  have counted : [[(0 : Float)]].length = doubledSquare.outputs.length := rfl
  have tangent : ∀ seed ∈ [[[(1 : Float)]]], Session.Shaped doubledSquare.inputs seed := by
    simp [Session.Shaped, doubledSquare]
  have adjoint : ∀ seed ∈ [[[(1 : Float)]]], Session.Shaped doubledSquare.outputs seed := by
    simp [Session.Shaped, doubledSquare]
  rcases Evaluator.reject_stops_at_first_violation doubledSquare_validate _ strictServes lenientServes
    shaped counted tangent adjoint with ⟨-, kept, stops⟩
  refine ⟨doubledSquare_validate, shaped, ?_, kept _ (by simp [Evaluator.primalOutcomes])⟩
  exact ((stops _ (List.mem_cons_self ..)).1 1 _).mp (by decide +kernel)

end Autodiff
