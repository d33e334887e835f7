import Autodiff.Proofs.Lowering.Flow
import Autodiff.Proofs.Lowering.Validation
import Mathlib.Data.Set.Function

/-!
# Built tapes do no redundant work

Every result of a built tape flows into an output, because pruning keeps what is needed only. With sharing, no two
emitted instructions repeat each other: the tables of constants and operations know every instruction that was
emitted (`Emission.Shared`), so that a second one is looked up instead. Pruning gives different numbers to different
values, so this is still so without slot reuse.
-/

namespace Autodiff

/-! ## Results that flow into outputs -/

/-- Results that are used after their instructions reach outputs. -/
theorem Tape.exists_yields {tape : Tape}
    (used : ∀ index < tape.instructions.length, tape.UsedAfter index (.result index)) {index : Nat}
    (inside : index < tape.instructions.length) :
    ∃ value, tape.Yields value ∧ Relation.ReflTransGen (Feeds tape.instructions) (.result index) value := by
  -- The induction is on the number of instructions that are left.
  induction left : tape.instructions.length - index using Nat.strongRecOn generalizing index with
  | _ left ih =>
      rcases used index inside with yields | ⟨later, after, feeds⟩
      · exact ⟨.result index, yields, .refl⟩
      · rcases feeds_result_iff.mp feeds with ⟨instruction, found, _⟩
        have laterInside := (List.getElem?_eq_some_iff.mp found).1
        rcases ih (tape.instructions.length - later) (by omega) laterInside rfl with ⟨value, yields, path⟩
        exact ⟨value, yields, .head feeds path⟩

/-! ## Repeated instructions -/

/-- Two instructions give the same constant, or apply the same operation to the same operands, in any order if it is
commutative. -/
structure Instruction.Repeats (first second : Instruction) : Prop where
  op_eq : first.op = second.op
  literal_eq : first.op = .const → first.literal.toBits = second.literal.toBits
  operands_eq : first.op ≠ .const → first.operands = second.operands ∨
    first.op.isCommutative ∧ first.operands = second.operands.reverse

namespace Instruction

theorem Repeats.rename {first second : Instruction} (repeats : first.Repeats second)
    (rename : Nat → Nat) (out out' : Nat) : (first.rename rename out).Repeats (second.rename rename out') where
  op_eq := by simpa using repeats.op_eq
  literal_eq := by simpa using repeats.literal_eq
  operands_eq notConst := by
    simp only [op_rename, operands_rename, ← List.map_reverse] at notConst ⊢
    exact (repeats.operands_eq notConst).imp (congrArg _) fun swapped => ⟨swapped.1, congrArg _ swapped.2⟩

end Instruction

namespace Emission

/-- The tables know every emitted instruction, and operands that may be swapped are in order. -/
structure Shared (emission : Emission) : Prop where
  constants : ∀ instruction ∈ emission.instructions, instruction.op = .const →
    emission.constants[instruction.literal.toBits]? = some instruction.out
  operations : ∀ instruction ∈ emission.instructions, instruction.op ≠ .const →
    emission.operations[(instruction.op, instruction.fst, instruction.snd)]? = some instruction.out
  sorted : ∀ instruction ∈ emission.instructions, instruction.op.isCommutative →
    instruction.fst ≤ instruction.snd

variable {emission : Emission}

theorem Shared.constant (shared : emission.Shared) (literal : Float) :
    (emission.constant true literal).2.Shared := by
  unfold Emission.constant
  simp only [if_true]
  split
  · exact shared
  · rename_i absent
    refine ⟨?_, ?_, ?_⟩ <;>
      simp only [Array.mem_push, or_imp, forall_and, forall_eq, ne_eq, not_true_eq_false, false_implies,
        Opcode.isCommutative, Bool.false_eq_true, and_true]
    · refine ⟨fun instruction member isConst => ?_, ?_⟩
      · have known := shared.constants instruction member isConst
        rw [Std.HashMap.getElem?_insert, if_neg, known]
        intro same
        rw [← eq_of_beq same, absent] at known
        cases known
      · intro _
        exact Std.HashMap.getElem?_insert_self
    · exact shared.operations
    · exact shared.sorted

theorem Shared.sortedOperation (shared : emission.Shared) {op : Opcode} {first second : Nat}
    (notConst : op ≠ .const) (sorted : op.isCommutative → first ≤ second) :
    (emission.sortedOperation true op first second).2.Shared := by
  unfold Emission.sortedOperation
  simp only [if_true]
  split
  · exact shared
  · rename_i absent
    refine ⟨?_, ?_, ?_⟩ <;>
      simp only [Array.mem_push, or_imp, forall_and, forall_eq]
    · exact ⟨shared.constants, fun isConst => absurd isConst notConst⟩
    · refine ⟨fun instruction member isOperation => ?_, fun _ => Std.HashMap.getElem?_insert_self⟩
      have known := shared.operations instruction member isOperation
      rw [Std.HashMap.getElem?_insert, if_neg, known]
      intro same
      rw [← eq_of_beq same, absent] at known
      cases known
    · exact ⟨shared.sorted, sorted⟩

theorem maintains_shared : EmitM.Maintains true Shared where
  constant emission shared literal := shared.constant literal
  unary emission shared op value := by
    simp only [operation, Opcode.isCommutative, Bool.false_and, Bool.false_eq_true, if_false]
    exact shared.sortedOperation (by simp) (by simp [Opcode.isCommutative])
  binary emission shared op first second := by
    unfold operation
    split
    · rename_i swaps
      refine shared.sortedOperation (by simp) fun _ => ?_
      simp only [Bool.and_eq_true, decide_eq_true_eq] at swaps
      omega
    · rename_i inOrder
      refine shared.sortedOperation (by simp) fun commutative => ?_
      simp only [commutative, Bool.true_and, decide_eq_true_eq] at inOrder
      omega
  store emission shared values := ⟨shared.constants, shared.operations, shared.sorted⟩

theorem Shared.out_eq (shared : emission.Shared) (spare : emission.SparesUnused) {first second : Instruction}
    (firstMem : first ∈ emission.instructions) (secondMem : second ∈ emission.instructions)
    (repeats : first.Repeats second) : first.out = second.out := by
  have sameOp := repeats.op_eq
  have operations : first.op ≠ .const → first.fst = second.fst → first.snd = second.snd →
      first.out = second.out := by
    intro notConst sameFst sameSnd
    have known := shared.operations first firstMem notConst
    rw [sameOp, sameFst, sameSnd, shared.operations second secondMem (sameOp ▸ notConst)] at known
    exact (Option.some.inj known).symm
  cases operation : first.op with
  | const =>
      have known := shared.constants first firstMem operation
      rw [repeats.literal_eq operation, shared.constants second secondMem (sameOp ▸ operation)] at known
      exact (Option.some.inj known).symm
  | unary op =>
      have secondOp : second.op = .unary op := sameOp ▸ operation
      have firstSpare := spare first firstMem
      have secondSpare := spare second secondMem
      simp only [Instruction.SparesUnused, Instruction.spareOperands, operation, secondOp,
        List.mem_singleton, forall_eq] at firstSpare secondSpare
      have sameFst := repeats.operands_eq (by simp [operation])
      simp only [Instruction.operands, operation, secondOp, List.reverse_singleton, List.cons.injEq, and_true,
        Opcode.isCommutative, Bool.false_eq_true, false_and, or_false] at sameFst
      exact operations (by simp [operation]) sameFst (firstSpare.trans secondSpare.symm)
  | binary op =>
      have secondOp : second.op = .binary op := sameOp ▸ operation
      have same := repeats.operands_eq (by simp [operation])
      simp only [Instruction.operands, operation, secondOp, List.reverse_cons, List.reverse_nil, List.nil_append,
        List.cons_append, List.cons.injEq, and_true] at same
      rcases same with ⟨sameFst, sameSnd⟩ | ⟨commutative, sameFst, sameSnd⟩
      · exact operations (by simp [operation]) sameFst sameSnd
      · -- Both pairs are in order, so that swapping them changes nothing.
        have firstSorted := shared.sorted first firstMem (by rwa [operation])
        have secondSorted := shared.sorted second secondMem (by rwa [secondOp])
        exact operations (by simp [operation]) (by omega) (by omega)

end Emission

/-! ## What pruning keeps apart -/

section Pruned

variable {numInputs : Nat} {instructions kept : List Instruction}
  {outputs keptOutputs : List (List Nat)} {live : Nat → Bool} {number : Nat → Nat}
  (pruned : Pruned numInputs instructions outputs kept keptOutputs live number)
include pruned

theorem Pruned.exists_inverse : ∃ old : Nat → Nat, ∀ value < numInputs + instructions.length, live value →
    old (number value) = value := by
  have injective : Set.InjOn number {value | value < numInputs + instructions.length ∧ live value} :=
    fun value isValue other isOther => pruned.number_injective value isValue.1 isValue.2 other isOther.1 isOther.2
  exact ⟨Function.invFunOn number _, fun value below isLive => injective.leftInvOn_invFunOn ⟨below, isLive⟩⟩

theorem Pruned.exists_repeats (numbered : Numbered numInputs instructions) {first second : Instruction}
    (firstMem : first ∈ kept) (secondMem : second ∈ kept) (repeats : first.Repeats second) :
    ∃ left ∈ instructions, ∃ right ∈ instructions, left.Repeats right ∧ first.out = number left.out ∧
      second.out = number right.out := by
  rcases pruned.exists_inverse with ⟨old, oldEq⟩
  have restored : ∀ renamed ∈ kept, ∃ instruction ∈ instructions,
      renamed.rename old instruction.out = instruction ∧ renamed.out = number instruction.out := by
    intro renamed member
    rcases pruned.exists_original member with ⟨instruction, isInstruction, isLive, rfl⟩
    refine ⟨instruction, isInstruction, ?_, by simp⟩
    rcases numbered.of_mem isInstruction with ⟨_, outBelow, operandsBelow⟩
    rw [Instruction.rename_rename]
    refine Instruction.rename_self fun operand isOperand => ?_
    have below := operandsBelow operand isOperand
    exact oldEq operand (by omega) (pruned.closed instruction isInstruction isLive operand isOperand)
  rcases restored first firstMem with ⟨left, leftMem, leftEq, leftOut⟩
  rcases restored second secondMem with ⟨right, rightMem, rightEq, rightOut⟩
  refine ⟨left, leftMem, right, rightMem, ?_, leftOut, rightOut⟩
  rw [← leftEq, ← rightEq]
  exact repeats.rename old _ _

end Pruned

/-- Every result of a built tape flows into an entry of an output through later instructions. With sharing and without
slot reuse no instruction repeats another one. -/
theorem Graph.build_irredundant {graph : Graph} {options : BuildOptions} {inputs outputs : List Handle}
    {tape : Tape} (built : graph.build options inputs outputs = .ok tape) :
    (∀ index < tape.instructions.length, ∃ value, tape.Yields value ∧
      Relation.ReflTransGen (Feeds tape.instructions) (.result index) value) ∧
    (options.shareValues = true → options.reuseSlots = false → ∀ ⦃index index' : Nat⦄ ⦃first second : Instruction⦄,
      tape.instructions[index]? = some first → tape.instructions[index']? = some second → index ≠ index' →
        ¬first.Repeats second) := by
  refine ⟨fun index inside => Tape.exists_yields (fun _ => build_result_usedAfter built) inside, ?_⟩
  intro share noReuse index index' first second isFirst isSecond different repeats
  rcases bind_eq_ok.mp built with ⟨⟨⟨blocks, values⟩, emission⟩, ran, built⟩
  rcases bind_eq_ok.mp built with ⟨outputBlocks, _, returned⟩
  cases returned
  simp only [noReuse, assignSlots, Bool.false_eq_true, if_false] at isFirst isSecond
  rw [share] at ran
  have emitted := (emitAll_emitted ran).1
  have numbered := emitted.accounts.consistent.numbered
  have shared : emission.Shared := by
    refine Emission.maintains_shared.emitAll graph (fun emission bare => ?_) ran
    constructor <;> simp [bare.instructions]
  rcases prune_pruned numbered emitted.outputs_lt with ⟨live, number, pruned⟩
  rcases pruned.exists_repeats numbered (List.mem_of_getElem? isFirst) (List.mem_of_getElem? isSecond) repeats with
    ⟨left, leftMem, right, rightMem, oldRepeats, firstOut, secondOut⟩
  have sameOut := shared.out_eq (emitAll_sparesUnused ran) (Array.mem_toList_iff.mp leftMem)
    (Array.mem_toList_iff.mp rightMem) oldRepeats
  have firstNumber := (pruned.numbered.getElem? isFirst).1
  have secondNumber := (pruned.numbered.getElem? isSecond).1
  rw [sameOut] at firstOut
  omega

/-- The double of a vector shares its factor: the three results all reach the output, and none is computed twice. -/
theorem Graph.doubling_irredundant : ∃ tape, doubling.build ⟨false, true⟩ [⟨3⟩] [⟨4⟩] = .ok tape ∧
    tape.instructions.length = 3 ∧
    (∀ index < 3, ∃ value, tape.Yields value ∧
      Relation.ReflTransGen (Feeds tape.instructions) (.result index) value) ∧
    ∀ ⦃index index' : Nat⦄ ⦃first second : Instruction⦄, tape.instructions[index]? = some first →
      tape.instructions[index']? = some second → index ≠ index' → ¬first.Repeats second := by
  rcases doubling_eq with ⟨zero, one, two, interned, same⟩
  have built : doubling.build ⟨false, true⟩ [⟨3⟩] [⟨4⟩] = .ok ⟨[⟨.const, 2, unusedOperand, unusedOperand, two⟩,
      ⟨.binary .mul, 3, 0, 2, 0⟩, ⟨.binary .mul, 4, 1, 2, 0⟩], 5, [⟨"x", ⟨2, [[0, 1]]⟩, [0, 1]⟩],
      [⟨"o0", ⟨2, [[0, 1]]⟩, [3, 4]⟩]⟩ := by
    rw [build, emitAll, postOrder_doubling, same]
    cbv
  rcases build_irredundant built with ⟨reaches, distinct⟩
  exact ⟨_, built, rfl, reaches, distinct rfl rfl⟩

end Autodiff
