import Autodiff.Proofs.Lowering.BuiltTapes
import Autodiff.Proofs.Tape.Liveness

/-!
# Data flow of built tapes

Without slot reuse the slots of a tape are its values, numbered in order, and pruning has left only results that
an output or a later instruction needs (`Plain`). A tape that is built with any options has the data flow of such a
tape, so that each of its results is used later.
-/

namespace Autodiff

/-- The value with a given number: the entries of the inputs come first, then the results. -/
def Origin.ofNumber (numInputs value : Nat) : Origin :=
  if value < numInputs then .start value else .result (value - numInputs)

theorem Origin.ofNumber_result (numInputs index : Nat) :
    Origin.ofNumber numInputs (numInputs + index) = .result index := by
  rw [ofNumber, if_neg (by omega), Nat.add_sub_cancel_left]

theorem Origin.ofNumber_injective (numInputs : Nat) : Function.Injective (Origin.ofNumber numInputs) := by
  intro value other same
  unfold Origin.ofNumber at same
  split at same <;> split at same <;> simp only [Origin.start.injEq, Origin.result.injEq, reduceCtorEq] at same
  · exact same
  · omega

/-- In a numbered program every value stays in the slot with its number. -/
theorem Numbered.supplies {numInputs value time : Nat} {program : List Instruction}
    (numbered : Numbered numInputs program) (inside : time ≤ program.length)
    (below : value < numInputs + time) :
    Supplies program value time (.ofNumber numInputs value) := by
  have otherOut : ∀ {index : Nat} {instruction : Instruction}, program[index]? = some instruction →
      numInputs + index ≠ value → instruction.out ≠ value := by
    intro index instruction found different
    rwa [(numbered.getElem? found).1]
  unfold Origin.ofNumber
  split
  · exact .start fun index instruction _ _ found => otherOut found (by omega)
  · have isInstruction : value - numInputs < program.length := by omega
    have found := List.getElem?_eq_getElem isInstruction
    have out := (numbered.getElem? found).1
    exact .result found (by omega) (by omega) fun index instruction after _ isOther =>
      otherOut isOther (by omega)

namespace Tape

/-- Every value has the slot with its number, and every result is needed. -/
structure Plain (tape : Tape) : Prop where
  numbered : Numbered tape.numInputNonzeros tape.instructions
  outputs : ∀ block ∈ tape.outputs, ∀ value ∈ block.slots,
    value < tape.numInputNonzeros + tape.instructions.length
  needed : ∀ instruction ∈ tape.instructions,
    Needed (tape.outputs.map Block.slots) tape.instructions instruction.out

namespace Plain

variable {tape : Tape} (plain : tape.Plain) {index : Nat}
include plain

theorem needed_drop {instruction : Instruction} (found : tape.instructions[index]? = some instruction) :
    Needed (tape.outputs.map Block.slots) (tape.instructions.drop (index + 1)) instruction.out := by
  refine (plain.needed instruction (List.mem_of_getElem? found)).imp_right ?_
  rintro ⟨reader, member, isOperand⟩
  rcases List.mem_iff_getElem?.mp member with ⟨later, isReader⟩
  -- Operands come before results, so the reader does.
  have after : index < later := by
    have out := (plain.numbered.getElem? found).1
    have below := (plain.numbered.getElem? isReader).2 instruction.out isOperand
    omega
  refine ⟨reader, List.mem_iff_getElem?.mpr ⟨later - (index + 1), ?_⟩, isOperand⟩
  rw [List.getElem?_drop, Nat.add_sub_cancel' after, isReader]

/-- The numbers that are needed later are those of values that are used later. -/
theorem usedAfter {value : Nat} (below : value < tape.numInputNonzeros + (index + 1))
    (needed : Needed (tape.outputs.map Block.slots) (tape.instructions.drop (index + 1)) value) :
    tape.UsedAfter index (.ofNumber tape.numInputNonzeros value) := by
  rcases needed with inOutput | ⟨reader, member, isOperand⟩
  · rcases List.mem_flatten.mp inOutput with ⟨_, isSlots, valueMem⟩
    rcases List.mem_map.mp isSlots with ⟨block, blockMem, rfl⟩
    exact .inl ⟨block, blockMem, value, valueMem,
      plain.numbered.supplies (Nat.le_refl _) (plain.outputs block blockMem value valueMem)⟩
  · rcases List.mem_iff_getElem?.mp member with ⟨offset, found⟩
    rw [List.getElem?_drop] at found
    have readerInside := (List.getElem?_eq_some_iff.mp found).1
    exact .inr ⟨index + 1 + offset, by omega, .operand found isOperand
      (plain.numbered.supplies (by omega) (by omega))⟩

theorem result_usedAfter (inside : index < tape.instructions.length) :
    tape.UsedAfter index (.result index) := by
  have found := List.getElem?_eq_getElem inside
  have out := (plain.numbered.getElem? found).1
  have used := plain.usedAfter (by omega) (plain.needed_drop found)
  rwa [out, Origin.ofNumber_result] at used

end Plain

theorem SameFlow.usedAfter_iff {first second : Tape} (same : first.SameFlow second) {index : Nat}
    {value : Origin} : first.UsedAfter index value ↔ second.UsedAfter index value := by
  simp only [UsedAfter, same.yields, same.feeds]

end Tape

namespace Graph

variable {graph : Graph} {inputs outputs : List Handle} {options : BuildOptions} {tape : Tape}

/-- A built tape has the data flow of a plain one, and its slots are assigned to the values of that one. -/
theorem exists_plain (built : graph.build options inputs outputs = .ok tape) :
    ∃ plain : Tape, plain.Plain ∧ plain.SameFlow tape ∧
      tape.numSlots = (assignSlots options.reuseSlots plain.numInputNonzeros plain.instructions
        (plain.outputs.map Block.slots)).numSlots := by
  rcases exists_linked_plain built with ⟨plain, before, after, plainBuilt, linked⟩
  rcases bind_eq_ok.mp built with ⟨⟨⟨blocks, values⟩, emission⟩, ran, built⟩
  rcases bind_eq_ok.mp plainBuilt with ⟨_, sameRan, plainBuilt⟩
  cases ran.symm.trans sameRan
  have emitted := (emitAll_emitted ran).1
  rcases prune_pruned emitted.accounts.consistent.numbered emitted.outputs_lt with ⟨live, number, pruned⟩
  simp only at built plainBuilt
  generalize prune emission.numInputs emission.instructions.toList values = result at built plainBuilt pruned
  rcases result with ⟨program, kept⟩
  simp only at built plainBuilt pruned
  rcases bind_eq_ok.mp built with ⟨outputBlocks, _, returned⟩
  rcases bind_eq_ok.mp plainBuilt with ⟨plainBlocks, blocksFound, plainReturned⟩
  cases returned
  cases plainReturned
  have keptEq := emitted.kept_eq pruned
  have slotsEq : plainBlocks.map Block.slots = kept := by
    have found := outputBlocks_eq_ok (keptEq ▸ blocksFound)
    rw [keptEq, ← List.forall₂_eq_eq_eq, List.forall₂_map_left_iff, List.forall₂_map_right_iff]
    exact found.flip.imp fun _ _ => And.right
  have inputsEq : total (blocks.map fun block => block.slots.length) = emission.numInputs :=
    emitted.numInputs_eq.symm
  refine ⟨_, ⟨?_, ?_, ?_⟩, linked.sameFlow, ?_⟩ <;>
    simp only [assignSlots, Bool.false_eq_true, if_false, Tape.numInputNonzeros, inputsEq, slotsEq]
  · exact pruned.numbered
  · intro block blockMem
    refine pruned.outputs_lt _ ?_
    rw [← slotsEq]
    exact List.mem_map_of_mem blockMem
  · exact pruned.needed

theorem build_result_usedAfter (built : graph.build options inputs outputs = .ok tape) {index : Nat}
    (inside : index < tape.instructions.length) : tape.UsedAfter index (.result index) := by
  rcases exists_plain built with ⟨plain, isPlain, same, _⟩
  exact same.usedAfter_iff.mp (isPlain.result_usedAfter (same.length_eq ▸ inside))

end Graph

end Autodiff
