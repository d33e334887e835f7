import Autodiff.Proofs.Tape.Validity

/-!
# What validation accepts

A valid tape passes `validate` if every block has a slot for each stored entry, unread operand fields are marked
as such and the number of slots can be addressed. The slots that the link of the tape with itself knows are the
slots that the check finds written: one instruction keeps this up, so all of them do.
-/

namespace Autodiff

variable {numSlots : Nat} {written : Std.HashSet Nat} {instructions : List Instruction}

def Instruction.SparesUnused (instruction : Instruction) : Prop :=
  ∀ operand ∈ instruction.spareOperands, operand = unusedOperand

def Block.Counted (block : Block) : Prop :=
  block.slots.length = block.pattern.nnz

namespace Tape

theorem checkInputSlots_range' {next count : Nat} (index : Nat) (fits : next + count ≤ numSlots) :
    checkInputSlots numSlots index next (List.range' next count) = .ok (next + count) := by
  induction count generalizing next with
  | zero => rfl
  | succ count ih =>
      rw [List.range'_succ, checkInputSlots, if_pos ⟨rfl, by omega⟩, ih (by omega)]
      congr 1
      omega

theorem checkInputs_range' {next count : Nat} {blocks : List Block} (index : Nat)
    (counted : ∀ block ∈ blocks, block.Counted) (slots : blocks.flatMap Block.slots = List.range' next count)
    (fits : next + count ≤ numSlots) :
    checkInputs numSlots index next blocks = .ok (next + count) := by
  induction blocks generalizing index next count with
  | nil =>
      have isZero : count = 0 := by simpa using congrArg List.length slots.symm
      subst isZero
      rfl
  | cons block blocks ih =>
      rw [List.forall_mem_cons] at counted
      rw [List.flatMap_cons] at slots
      rcases List.range'_eq_append_iff.mp slots.symm with ⟨filled, below, first, rest⟩
      rw [Nat.mul_one] at rest
      have checked : checkSlotCount .input index block = .ok () := if_pos counted.1
      rw [checkInputs, checked, ok_bind, first, checkInputSlots_range' index (by omega), ok_bind,
        ih (index + 1) counted.2 rest (by omega)]
      congr 1
      omega

theorem checkInstructions_cons {index : Nat} {instruction : Instruction} (spare : instruction.SparesUnused)
    (operands : ∀ operand ∈ instruction.operands, operand ∈ written) (inside : instruction.out < numSlots) :
    checkInstructions numSlots index written (instruction :: instructions) =
      checkInstructions numSlots (index + 1) (written.insert instruction.out) instructions := by
  have noExtra : instruction.spareOperands.any (· ≠ unusedOperand) = false := by
    simpa [List.any_eq_false, Instruction.SparesUnused] using spare
  have allWritten : (instruction.operands.find? fun slot => !written.contains slot) = none := by
    simpa [List.find?_eq_none] using operands
  rw [checkInstructions, noExtra, allWritten]
  simp only [Bool.false_eq_true, if_false, Nat.not_le.mpr inside]

/-- Instructions that are linked to others are accepted, and in the end every linked slot is written. -/
theorem exists_checkInstructions {firstSize : Nat} {before after : Link} {firsts : List Instruction}
    (linked : Linked firstSize numSlots before firsts instructions after) (index : Nat)
    (covers : ∀ ⦃left right⦄, before left right → right ∈ written)
    (spare : ∀ instruction ∈ instructions, instruction.SparesUnused) :
    ∃ final, checkInstructions numSlots index written instructions = .ok final ∧
      ∀ ⦃left right⦄, after left right → right ∈ final := by
  induction linked generalizing written index with
  | nil link => exact ⟨written, rfl, covers⟩
  | @cons before between after first second firsts seconds step _ ih =>
      rw [List.forall_mem_cons] at spare
      have operands : ∀ operand ∈ second.operands, operand ∈ written := by
        intro operand member
        rcases exists_related step.operands.flip member with ⟨partner, _, isLinked⟩
        exact covers isLinked
      have stillCovers : ∀ ⦃left right⦄, between left right → right ∈ written.insert second.out := by
        intro left right isLinked
        rw [Std.HashSet.mem_insert]
        rcases step.kept isLinked with ⟨_, rfl⟩ | ⟨wasLinked, _⟩
        · exact .inl (beq_self_eq_true _)
        · exact .inr (covers wasLinked)
      rcases ih (index + 1) stillCovers spare.2 with ⟨final, checked, finalCovers⟩
      exact ⟨final, (checkInstructions_cons spare.1 operands step.secondInside).trans checked, finalCovers⟩

theorem checkOutputs_of_written {blocks : List Block} (index : Nat) (counted : ∀ block ∈ blocks, block.Counted)
    (slots : ∀ block ∈ blocks, ∀ slot ∈ block.slots, slot ∈ written) :
    checkOutputs written index blocks = .ok () := by
  induction blocks generalizing index with
  | nil => rfl
  | cons block blocks ih =>
      rw [List.forall_mem_cons] at counted slots
      have checked : checkSlotCount .output index block = .ok () := if_pos counted.1
      have allWritten : (block.slots.any fun slot => !written.contains slot) = false := by
        simpa [List.any_eq_false] using slots.1
      rw [checkOutputs, checked, ok_bind, allWritten]
      exact ih (index + 1) counted.2 slots.2

theorem Valid.validate_eq_ok {tape : Tape} (valid : tape.Valid) (inputs : ∀ block ∈ tape.inputs, block.Counted)
    (outputs : ∀ block ∈ tape.outputs, block.Counted)
    (spare : ∀ instruction ∈ tape.instructions, instruction.SparesUnused)
    (addressable : tape.numSlots < 1 <<< 63) : tape.validate = .ok () := by
  rcases valid with ⟨⟨filled, fits, slots⟩, before, after, linked⟩
  have inputsChecked : checkInputs tape.numSlots 0 0 tape.inputs = .ok filled := by
    rw [checkInputs_range' 0 inputs (slots.trans List.range_eq_range') (by omega), Nat.zero_add]
  have covers : ∀ ⦃left right⦄, before left right → right ∈ Std.HashSet.ofList (List.range filled) := by
    intro left right isLinked
    rcases linked.before_eq isLinked with ⟨rfl, block, blockMem, slotMem⟩
    rw [Std.HashSet.mem_ofList, List.contains_iff_mem, ← slots]
    exact List.mem_flatMap.mpr ⟨block, blockMem, slotMem⟩
  rcases exists_checkInstructions linked.instructions 0 covers spare with ⟨final, checked, written⟩
  have outputsChecked : checkOutputs final 0 tape.outputs = .ok () := by
    refine checkOutputs_of_written 0 outputs fun block blockMem slot slotMem => ?_
    rcases exists_related linked.outputs.flip blockMem with ⟨_, _, linkedSlots⟩
    rcases exists_related linkedSlots.flip slotMem with ⟨_, _, isLinked⟩
    exact written isLinked
  rw [validate, if_neg (Nat.not_le.mpr addressable), inputsChecked]
  simp only [ok_bind, checked, outputsChecked]

end Tape

end Autodiff
