import Autodiff.Proofs.Tape.Renaming

/-!
# What validation guarantees

A tape that passes `validate` has its inputs in the first slots, one after the other, and writes every
slot before reading it. The second fact is stated as a link of the tape with itself, in which the slots
written so far are linked to themselves. So all results about linked tapes apply: in particular, what
a working array held before never shows.
-/

namespace Autodiff

variable {numSlots index : Nat} {instructions : List Instruction}

/-- Every slot of a set is linked to itself. -/
def Link.diagonal (slots : Std.HashSet Nat) : Link :=
  fun left right => left = right ∧ left ∈ slots

theorem Link.diagonal_matching (slots : Std.HashSet Nat) : (Link.diagonal slots).Matching := by
  rintro left _ left' _ ⟨rfl, _⟩ ⟨rfl, _⟩
  rfl

theorem Link.forall₂_diagonal {slots : Std.HashSet Nat} {chosen : List Nat}
    (written : ∀ slot ∈ chosen, slot ∈ slots) :
    List.Forall₂ (Link.diagonal slots) chosen chosen :=
  List.forall₂_same.mpr fun slot member => ⟨rfl, written slot member⟩

namespace Tape

/-! ## The checks -/

theorem checkInputSlots_eq_ok {next after : Nat} {slots : List Nat}
    (checked : checkInputSlots numSlots index next slots = .ok after) (fits : next ≤ numSlots) :
    slots = List.range' next slots.length ∧ after = next + slots.length ∧ after ≤ numSlots := by
  induction slots generalizing next with
  | nil =>
      cases checked
      exact ⟨rfl, rfl, fits⟩
  | cons slot slots ih =>
      rw [checkInputSlots] at checked
      split at checked
      · rename_i continues
        rcases continues with ⟨rfl, inside⟩
        rcases ih checked inside with ⟨range, afterEq, afterFits⟩
        refine ⟨?_, ?_, afterFits⟩
        · rw [List.length_cons, List.range'_succ, ← range]
        · rw [List.length_cons]
          omega
      · cases checked

theorem checkInputs_eq_ok {next filled : Nat} {blocks : List Block}
    (checked : checkInputs numSlots index next blocks = .ok filled) (fits : next ≤ numSlots) :
    ∃ count, blocks.flatMap Block.slots = List.range' next count ∧ filled = next + count ∧
      filled ≤ numSlots := by
  induction blocks generalizing index next with
  | nil =>
      cases checked
      exact ⟨0, rfl, rfl, fits⟩
  | cons block blocks ih =>
      rw [checkInputs] at checked
      rcases bind_eq_ok.mp checked with ⟨_, _, checked⟩
      rcases bind_eq_ok.mp checked with ⟨between, slotsChecked, restChecked⟩
      rcases checkInputSlots_eq_ok slotsChecked fits with ⟨range, rfl, betweenFits⟩
      rcases ih restChecked betweenFits with ⟨count, rest, rfl, filledFits⟩
      refine ⟨block.slots.length + count, ?_, by omega, filledFits⟩
      rw [List.flatMap_cons, rest, range, List.length_range', List.range'_append_1]

theorem checkInstructions_cons_eq_ok {written final : Std.HashSet Nat} {instruction : Instruction}
    (checked : checkInstructions numSlots index written (instruction :: instructions) = .ok final) :
    (∀ operand ∈ instruction.operands, operand ∈ written) ∧ instruction.out < numSlots ∧
      checkInstructions numSlots (index + 1) (written.insert instruction.out) instructions =
        .ok final := by
  simp only [checkInstructions, flawed, error_bind] at checked
  split at checked
  · cases checked
  · split at checked
    · cases checked
    · rename_i allWritten
      split at checked
      · cases checked
      · rename_i inside
        refine ⟨fun operand member => ?_, by omega, checked⟩
        have notMissing := List.find?_eq_none.mp allWritten operand member
        simpa using notMissing

theorem checkInstructions_eq_ok {written final : Std.HashSet Nat}
    (checked : checkInstructions numSlots index written instructions = .ok final)
    (inside : ∀ slot ∈ written, slot < numSlots) :
    Linked numSlots numSlots (.diagonal written) instructions instructions (.diagonal final) ∧
      ∀ slot ∈ final, slot < numSlots := by
  induction instructions generalizing index written with
  | nil =>
      cases checked
      exact ⟨.nil _, inside⟩
  | cons instruction instructions ih =>
      rcases checkInstructions_cons_eq_ok checked with ⟨operands, outInside, restChecked⟩
      have insideAfter : ∀ slot ∈ written.insert instruction.out, slot < numSlots := by
        intro slot member
        rcases Std.HashSet.mem_insert.mp member with isOut | before
        · exact eq_of_beq isOut ▸ outInside
        · exact inside slot before
      rcases ih restChecked insideAfter with ⟨rest, finalInside⟩
      refine ⟨.cons ⟨rfl, rfl, Link.forall₂_diagonal operands, Link.diagonal_matching written, ?_,
        outInside, outInside, ?_⟩ rest, finalInside⟩
      · rintro slot _ ⟨rfl, member⟩
        exact ⟨inside slot member, inside slot member⟩
      · rintro slot _ ⟨rfl, member⟩
        by_cases isOut : slot = instruction.out
        · exact .inl ⟨isOut, isOut⟩
        · refine .inr ⟨⟨rfl, ?_⟩, isOut, isOut⟩
          rcases Std.HashSet.mem_insert.mp member with same | before
          · exact absurd (eq_of_beq same).symm isOut
          · exact before

theorem checkOutputs_eq_ok {written : Std.HashSet Nat} {blocks : List Block}
    (checked : checkOutputs written index blocks = .ok ()) :
    ∀ block ∈ blocks, ∀ slot ∈ block.slots, slot ∈ written := by
  induction blocks generalizing index with
  | nil => simp
  | cons block blocks ih =>
      rw [checkOutputs] at checked
      rcases bind_eq_ok.mp checked with ⟨_, _, checked⟩
      simp only [flawed, error_bind] at checked
      split at checked
      · cases checked
      · rename_i allWritten
        refine List.forall_mem_cons.mpr ⟨fun slot member => ?_, ih checked⟩
        by_contra missing
        refine allWritten (List.any_eq_true.mpr ⟨slot, member, ?_⟩)
        simpa using missing

theorem block_input (tape : Tape) (iind : Fin tape.inputs.length) :
    tape.block .input iind = .ok (tape.inputs.get iind) := by
  simp [block, blocks]

theorem block_output (tape : Tape) (oind : Fin tape.outputs.length) :
    tape.block .output oind = .ok (tape.outputs.get oind) := by
  simp [block, blocks]

theorem length_slots (blocks : List Block) :
    (blocks.flatMap Block.slots).length = total (blocks.map fun block => block.slots.length) := by
  induction blocks with
  | nil => rfl
  | cons block blocks ih => simp [ih]

/-- Every slot that the tape names exists. -/
structure Bounded (tape : Tape) : Prop where
  instructions : ∀ instruction ∈ tape.instructions, instruction.Below tape.numSlots
  inputs : SlotsBelow tape.numSlots tape.inputs
  outputs : SlotsBelow tape.numSlots tape.outputs

/-! ## Valid tapes -/

/-- The inputs fill the first slots, and every slot is written before it is read. -/
structure Valid (tape : Tape) : Prop where
  inputs : ∃ filled ≤ tape.numSlots, tape.inputs.flatMap Block.slots = List.range filled
  linked : ∃ before after, LinkedBy before after tape tape

namespace Valid

variable {tape : Tape}

theorem inputSlots (valid : tape.Valid) :
    tape.inputs.flatMap Block.slots = List.range tape.numInputNonzeros := by
  rcases valid.inputs with ⟨filled, _, slots⟩
  rw [numInputNonzeros, ← length_slots, slots, List.length_range]

theorem numInputNonzeros_le (valid : tape.Valid) : tape.numInputNonzeros ≤ tape.numSlots := by
  rcases valid.inputs with ⟨filled, fits, slots⟩
  rw [numInputNonzeros, ← length_slots, slots, List.length_range]
  exact fits

theorem nodup_inputs (valid : tape.Valid) : (tape.inputs.flatMap Block.slots).Nodup := by
  rcases valid.inputs with ⟨filled, _, slots⟩
  rw [slots]
  exact List.nodup_range

theorem inputsBelow (valid : tape.Valid) : SlotsBelow tape.numSlots tape.inputs := by
  rcases valid.linked with ⟨_, _, linked⟩
  exact fun block blockMem slot slotMem => (linked.inputsInside block blockMem slot slotMem).1

theorem outputsBelow (valid : tape.Valid) : SlotsBelow tape.numSlots tape.outputs := by
  rcases valid.linked with ⟨_, _, linked⟩
  intro block blockMem slot slotMem
  rcases List.mem_iff_getElem?.mp blockMem with ⟨index, isBlock⟩
  rcases List.mem_iff_getElem?.mp slotMem with ⟨number, isSlot⟩
  rcases forall₂_getElem? linked.outputs isBlock with ⟨_, _, slots⟩
  rcases forall₂_getElem? slots isSlot with ⟨_, _, isLinked⟩
  exact (linked.inside isLinked).1

theorem instructionsBelow (valid : tape.Valid) :
    ∀ instruction ∈ tape.instructions, instruction.Below tape.numSlots := by
  rcases valid.linked with ⟨_, _, linked⟩
  exact linked.instructions.instructionsBelow

theorem bounded (valid : tape.Valid) : tape.Bounded :=
  ⟨valid.instructionsBelow, valid.inputsBelow, valid.outputsBelow⟩

end Valid

theorem valid_of_validate {tape : Tape} (validated : tape.validate = .ok ()) : tape.Valid := by
  rw [validate] at validated
  split at validated
  · cases validated
  · rcases bind_eq_ok.mp validated with ⟨filled, inputsChecked, validated⟩
    rcases bind_eq_ok.mp validated with ⟨final, instructionsChecked, outputsChecked⟩
    rcases checkInputs_eq_ok inputsChecked (Nat.zero_le _) with ⟨count, slots, rfl, fits⟩
    rw [Nat.zero_add] at fits instructionsChecked
    rw [← List.range_eq_range'] at slots
    have startInside : ∀ slot ∈ Std.HashSet.ofList (List.range count), slot < tape.numSlots := by
      intro slot member
      rw [Std.HashSet.mem_ofList, List.contains_iff_mem, List.mem_range] at member
      omega
    rcases checkInstructions_eq_ok instructionsChecked startInside with ⟨linked, finalInside⟩
    have slotOfInput : ∀ slot, slot < count ↔ ∃ block ∈ tape.inputs, slot ∈ block.slots := by
      intro slot
      rw [← List.mem_flatMap, slots, List.mem_range]
    refine ⟨⟨count, fits, slots⟩, _, _, linked, rfl, ?_, ?_, ?_, Link.diagonal_matching final, ?_⟩
    · intro block blockMem slot slotMem
      have below := (slotOfInput slot).mpr ⟨block, blockMem, slotMem⟩
      omega
    · rintro slot _ ⟨rfl, member⟩
      rw [Std.HashSet.mem_ofList, List.contains_iff_mem, List.mem_range] at member
      exact ⟨rfl, (slotOfInput slot).mp member⟩
    · exact List.forall₂_same.mpr fun block member =>
        Link.forall₂_diagonal (checkOutputs_eq_ok outputsChecked block member)
    · rintro slot _ ⟨rfl, member⟩
      exact ⟨finalInside slot member, finalInside slot member⟩

end Tape

end Autodiff
