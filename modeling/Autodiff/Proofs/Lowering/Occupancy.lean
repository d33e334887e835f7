import Autodiff.Proofs.Lowering.Flow

/-!
# Slot reuse wastes no slot

While slots are handed out, every slot is free or holds a value that is still needed (`SlotState.Covered`): an
operand gives its slot up at its last use, and every result is needed. So a new slot is taken only when all others
hold needed values, and no tape with the same data flow has fewer slots.
-/

namespace Autodiff

/-! ## Last uses -/

/-- A use that is noted was noted before or is one of the instructions `rest`. -/
theorem exists_reader_of_noted {rest : List Instruction} {uses : Array (Option Nat)} {start value use : Nat}
    (inside : value < uses.size)
    (noted : ((rest.zipIdx start).foldl markUses uses).getD value none = some use) :
    uses.getD value none = some use ∨ ∃ index instruction, rest[index]? = some instruction ∧
      use = start + index ∧ value ∈ instruction.operands := by
  induction rest generalizing uses start with
  | nil => exact .inl noted
  | cons head rest ih =>
      rw [List.zipIdx_cons, List.foldl_cons] at noted
      rcases ih (by rwa [size_markUses]) noted with before | ⟨index, instruction, found, isUse, isOperand⟩
      · rw [getD_markUses uses head start inside] at before
        by_cases isOperand : value ∈ head.operands
        · rw [if_pos isOperand] at before
          exact .inr ⟨0, head, rfl, (Option.some.inj before).symm, isOperand⟩
        · rw [if_neg isOperand] at before
          exact .inl before
      · exact .inr ⟨index + 1, instruction, found, by omega, isOperand⟩

/-- Every noted use from `start` on is one of the instructions. -/
def UsesOccur (uses : Array (Option Nat)) (start : Nat) (rest : List Instruction) : Prop :=
  ∀ value < uses.size, ∀ use, uses.getD value none = some (start + use) →
    ∃ instruction, rest[use]? = some instruction ∧ value ∈ instruction.operands

theorem UsesOccur.tail {uses : Array (Option Nat)} {start : Nat} {instruction : Instruction}
    {rest : List Instruction} (occur : UsesOccur uses start (instruction :: rest)) :
    UsesOccur uses (start + 1) rest := by
  intro value inside use noted
  exact occur value inside (use + 1) (by rw [noted, Nat.add_assoc, Nat.add_comm 1])

theorem usesOccur_lastUses (numValues : Nat) (program : List Instruction) :
    UsesOccur (lastUses numValues program) 0 program := by
  intro value inside use noted
  rw [size_lastUses] at inside
  have none : (Array.replicate numValues (none : Option Nat)).getD value none = none := by
    simp [inside]
  rcases exists_reader_of_noted (by rwa [Array.size_replicate]) noted with
    before | ⟨index, instruction, found, isUse, isOperand⟩
  · rw [none] at before
    cases before
  · rw [Nat.add_left_cancel isUse]
    exact ⟨instruction, found, isOperand⟩

theorem lastUse_of_not_needed {uses : Array (Option Nat)} {outputs : List (List Nat)} {index value : Nat}
    {instruction : Instruction} {rest : List Instruction} (cover : UsesCover uses index (instruction :: rest))
    (occur : UsesOccur uses index (instruction :: rest)) (inside : value < uses.size)
    (isOperand : value ∈ instruction.operands) (notNeeded : ¬Needed outputs rest value) :
    uses.getD value none = some index := by
  rcases cover 0 instruction rfl value isOperand with ⟨use, after, noted⟩
  rcases Nat.exists_eq_add_of_le after with ⟨offset, rfl⟩
  rcases offset with _ | offset
  · exact noted
  · rcases occur.tail value inside offset (by rw [noted]; congr 1; omega) with ⟨reader, found, isRead⟩
    exact absurd (.inr ⟨reader, List.mem_of_getElem? found, isRead⟩) notNeeded

/-! ## Every slot is free or needed -/

instance (outputs : List (List Nat)) (rest : List Instruction) : DecidablePred (Needed outputs rest) :=
  fun value => inferInstanceAs
    (Decidable (value ∈ outputs.flatten ∨ ∃ instruction ∈ rest, value ∈ instruction.operands))

/-- The values below `next` that an output or one of the instructions `rest` needs. -/
def neededValues (outputs : List (List Nat)) (rest : List Instruction) (next : Nat) : Finset Nat :=
  (Finset.range next).filter (Needed outputs rest)

def ResultsNeeded (outputs : List (List Nat)) (rest : List Instruction) : Prop :=
  ∀ index instruction, rest[index]? = some instruction →
    Needed outputs (rest.drop (index + 1)) instruction.out

namespace SlotState

/-- Every slot is free or holds a value that is needed. -/
def Covered (outputs : List (List Nat)) (rest : List Instruction) (next : Nat) (state : SlotState) : Prop :=
  ∀ slot < state.numSlots, slot ∈ state.free ∨ ∃ value < next, Needed outputs rest value ∧ state.slot value = slot

variable {outputs : List (List Nat)} {rest : List Instruction} {next index numValues : Nat}
  {state : SlotState} {instruction : Instruction} {pinned : Array Bool} {uses : Array (Option Nat)}

/-- There are at most as many slots as free slots and needed values. -/
theorem Covered.numSlots_le (covered : Covered outputs rest next state) :
    state.numSlots ≤ state.free.length + (neededValues outputs rest next).card := by
  have subset : Finset.range state.numSlots ⊆
      state.free.toFinset ∪ (neededValues outputs rest next).image state.slot := by
    intro slot member
    rcases covered slot (Finset.mem_range.mp member) with isFree | ⟨value, below, needed, rfl⟩
    · exact Finset.mem_union_left _ (List.mem_toFinset.mpr isFree)
    · exact Finset.mem_union_right _ (Finset.mem_image_of_mem _
        (Finset.mem_filter.mpr ⟨Finset.mem_range.mpr below, needed⟩))
  calc state.numSlots = (Finset.range state.numSlots).card := (Finset.card_range _).symm
    _ ≤ (state.free.toFinset ∪ (neededValues outputs rest next).image state.slot).card :=
      Finset.card_le_card subset
    _ ≤ state.free.toFinset.card + ((neededValues outputs rest next).image state.slot).card :=
      Finset.card_union_le ..
    _ ≤ state.free.length + (neededValues outputs rest next).card :=
      Nat.add_le_add (List.toFinset_card_le _) Finset.card_image_le

/-- Free slots stay free, and the slots of operands that are used last become free. -/
theorem mem_foldl_releaseOperand {operands free : List Nat} {slot : Nat}
    (freed : slot ∈ free ∨ ∃ value ∈ operands, uses.getD value none = some index ∧
      pinned.getD value false = false ∧ state.slot value = slot) :
    slot ∈ operands.foldl (releaseOperand state pinned uses index) free := by
  induction operands generalizing free with
  | nil => simpa using freed
  | cons operand operands ih =>
      refine ih ?_
      rcases freed with isFree | ⟨value, member, isLast, notPinned, rfl⟩
      · refine .inl ?_
        unfold releaseOperand
        split
        · exact List.mem_cons_of_mem _ isFree
        · exact isFree
      · rcases List.mem_cons.mp member with rfl | later
        · refine .inl ?_
          rw [releaseOperand, if_pos (by simp [isLast, notPinned])]
          exact List.mem_cons_self ..
        · exact .inr ⟨value, later, isLast, notPinned, rfl⟩

section Step

variable (covered : Covered outputs (instruction :: rest) next state)
  (cover : UsesCover uses index (instruction :: rest)) (occur : UsesOccur uses index (instruction :: rest))
  (sized : next ≤ uses.size)
include covered cover occur sized

/-- After an instruction has released its operands, every slot is spare or still needed. -/
theorem Covered.release {slot : Nat} (inside : slot < state.numSlots) :
    slot ∈ state.release (outputFlags numValues outputs) uses index instruction ∨
      ∃ value < next, Needed outputs rest value ∧ state.slot value = slot := by
  rcases covered slot inside with isFree | ⟨value, below, needed, rfl⟩
  · exact .inl (mem_foldl_releaseOperand (.inl isFree))
  · by_cases stillNeeded : Needed outputs rest value
    · exact .inr ⟨value, below, stillNeeded, rfl⟩
    · have notOutput : value ∉ outputs.flatten := fun isOutput => stillNeeded (.inl isOutput)
      have isOperand : value ∈ instruction.operands := by
        rcases needed with isOutput | ⟨reader, member, isRead⟩
        · exact absurd isOutput notOutput
        · rcases List.mem_cons.mp member with rfl | later
          · exact isRead
          · exact absurd (.inr ⟨reader, later, isRead⟩) stillNeeded
      refine .inl (mem_foldl_releaseOperand (.inr ⟨value, List.mem_eraseDups.mpr isOperand, ?_, ?_, rfl⟩))
      · exact lastUse_of_not_needed cover occur (by omega) isOperand stillNeeded
      · rw [getD_outputFlags, decide_eq_false notOutput, Bool.false_and]

/-- What one instruction needs to keep the slots covered. -/
theorem Covered.step (isNext : instruction.out = next) (outInside : next < state.slots.size)
    (outNeeded : Needed outputs rest instruction.out) :
    Covered outputs rest (next + 1)
      (state.step (outputFlags numValues outputs) uses (instruction, index)) := by
  rcases step_cases state (outputFlags numValues outputs) uses instruction index with
    ⟨slot, free, numSlots, stepped, chosen⟩
  rw [stepped]
  intro other inside
  have outHolds : ∃ value < next + 1, Needed outputs rest value ∧
      SlotState.slot ⟨state.slots.setIfInBounds instruction.out slot, free, numSlots,
        state.assigned.push (instruction.rename state.slot slot)⟩ value = slot :=
    ⟨instruction.out, by omega, outNeeded, slot_assigned (isNext ▸ outInside) ..⟩
  have stillHolds : (∃ value < next, Needed outputs rest value ∧ state.slot value = other) →
      ∃ value < next + 1, Needed outputs rest value ∧
        SlotState.slot ⟨state.slots.setIfInBounds instruction.out slot, free, numSlots,
          state.assigned.push (instruction.rename state.slot slot)⟩ value = other := by
    rintro ⟨value, below, needed, rfl⟩
    exact ⟨value, by omega, needed, slot_assigned_of_ne (by omega) ..⟩
  have released := @Covered.release _ _ _ _ numValues _ _ _ covered cover occur sized other
  rcases chosen with ⟨isReleased, rfl⟩ | ⟨noneReleased, rfl, rfl, rfl⟩
  · rcases released inside with isSpare | held
    · rw [isReleased] at isSpare
      rcases List.mem_cons.mp isSpare with rfl | isFree
      · exact .inr outHolds
      · exact .inl isFree
    · exact .inr (stillHolds held)
  · by_cases isNew : other = state.numSlots
    · exact .inr (isNew ▸ outHolds)
    · have old : other < state.numSlots := Nat.lt_of_le_of_ne (Nat.le_of_lt_succ inside) isNew
      rcases released old with isSpare | held
      · rw [noneReleased] at isSpare
        cases isSpare
      · exact .inr (stillHolds held)

end Step

/-- A new slot is taken only if every slot then holds a needed value. -/
theorem numSlots_step_le
    (covered : Covered outputs rest next (state.step pinned uses (instruction, index))) :
    (state.step pinned uses (instruction, index)).numSlots ≤
      max state.numSlots (neededValues outputs rest next).card := by
  have bound := covered.numSlots_le
  rcases step_cases state pinned uses instruction index with
    ⟨slot, free, numSlots, stepped, ⟨_, rfl⟩ | ⟨_, _, rfl, rfl⟩⟩
  · rw [stepped]
    exact Nat.le_max_left ..
  · rw [stepped] at bound ⊢
    rw [List.length_nil, Nat.zero_add] at bound
    exact Nat.le_trans bound (Nat.le_max_right ..)

/-- The slots that are taken for the rest of the program, where `bound` values are needed at once at most. -/
theorem Covered.numSlots_foldl_le (covered : Covered outputs rest next state) (numbered : Numbered next rest)
    (cover : UsesCover uses index rest) (occur : UsesOccur uses index rest)
    (resultsNeeded : ResultsNeeded outputs rest) (sized : uses.size = numValues)
    (slotsSized : state.slots.size = numValues) (below : next + rest.length ≤ numValues) {bound : Nat}
    (fits : state.numSlots ≤ bound)
    (each : ∀ number < rest.length,
      (neededValues outputs (rest.drop (number + 1)) (next + (number + 1))).card ≤ bound) :
    ((rest.zipIdx index).foldl (SlotState.step (outputFlags numValues outputs) uses) state).numSlots ≤ bound := by
  induction rest generalizing next index state with
  | nil => exact fits
  | cons instruction rest ih =>
      rcases numbered with ⟨isNext, _, restNumbered⟩
      rw [List.length_cons] at below
      rw [List.zipIdx_cons, List.foldl_cons]
      have stepCovered : Covered outputs rest (next + 1)
          (state.step (outputFlags numValues outputs) uses (instruction, index)) :=
        covered.step cover occur (by omega) isNext (by omega) (resultsNeeded 0 instruction rfl)
      have stepFits := Nat.le_trans (numSlots_step_le stepCovered)
        (Nat.max_le.mpr ⟨fits, each 0 (Nat.succ_pos _)⟩)
      refine ih stepCovered restNumbered cover.tail occur.tail ?_ ?_ (by omega) stepFits ?_
      · intro number later found
        exact resultsNeeded (number + 1) later found
      · rcases step_cases state (outputFlags numValues outputs) uses instruction index with
          ⟨slot, free, numSlots, stepped, _⟩
        rw [stepped, Array.size_setIfInBounds, slotsSized]
      · intro number inside
        have later := each (number + 1) (Nat.succ_lt_succ inside)
        rwa [List.drop_succ_cons, show next + (number + 1 + 1) = next + 1 + (number + 1) by omega] at later

/-- At the start every input that is needed has its slot, and the other slots are free. -/
theorem covered_start {numInputs : Nat} {program : List Instruction} (occur : UsesOccur uses 0 program)
    (sized : uses.size = numValues) (inputsFit : numInputs ≤ numValues) :
    Covered outputs program numInputs (start numInputs (outputFlags numValues outputs) uses) := by
  intro value below
  have inside : value < uses.size := Nat.lt_of_lt_of_le below (sized ▸ inputsFit)
  have held : (start numInputs (outputFlags numValues outputs) uses).slot value = value := slot_start _ inside
  by_cases isOutput : value ∈ outputs.flatten
  · exact .inr ⟨value, below, .inl isOutput, held⟩
  · cases noted : uses.getD value none with
    | none =>
        refine .inl (List.mem_filter.mpr ⟨List.mem_range.mpr below, ?_⟩)
        rw [noted, getD_outputFlags, decide_eq_false isOutput, Bool.false_and]
        rfl
    | some use =>
        rcases occur value inside use (by rw [noted, Nat.zero_add]) with ⟨reader, found, isRead⟩
        exact .inr ⟨value, below, .inr ⟨reader, List.mem_of_getElem? found, isRead⟩, held⟩

end SlotState

/-- With reuse, no more slots are taken than inputs are there or values are needed at once. -/
theorem reuseSlots_numSlots_le {numInputs bound : Nat} {program : List Instruction} {outputs : List (List Nat)}
    (numbered : Numbered numInputs program) (resultsNeeded : ResultsNeeded outputs program)
    (fits : numInputs ≤ bound)
    (each : ∀ index < program.length,
      (neededValues outputs (program.drop (index + 1)) (numInputs + (index + 1))).card ≤ bound) :
    (reuseSlots numInputs program outputs).numSlots ≤ bound := by
  have occur := usesOccur_lastUses (numInputs + program.length) program
  have sized := size_lastUses (numInputs + program.length) program
  have covered : SlotState.Covered outputs program numInputs (.start numInputs
      (outputFlags (numInputs + program.length) outputs) (lastUses (numInputs + program.length) program)) :=
    SlotState.covered_start occur sized (Nat.le_add_right ..)
  exact covered.numSlots_foldl_le numbered (usesCover_lastUses numbered) occur resultsNeeded sized
    (Array.size_range.trans sized) (Nat.le_refl _) fits each

/-! ## The slots of built tapes -/

namespace Tape

def peak (tape : Tape) : Nat :=
  (Finset.range tape.instructions.length).sup fun index => (tape.liveAfter index).card

/-- Of two inputs that are added and then multiplied by the first one, the second is not live any more after the sum. -/
example : peak ⟨[⟨.binary .add, 1, 0, 1, 0⟩, ⟨.binary .mul, 0, 0, 1, 0⟩], 2, [⟨"x", .scalar, [0]⟩, ⟨"y", .scalar, [1]⟩],
    [⟨"o0", .scalar, [0]⟩]⟩ = 2 := by
  decide

theorem SameFlow.peak_eq {first second : Tape} (same : first.SameFlow second) : first.peak = second.peak := by
  simp only [peak, same.length_eq, same.liveAfter_eq]

/-- A valid tape has a slot for every entry of its inputs and for all values that are live at the same time. -/
theorem Valid.peak_le {tape : Tape} (valid : tape.Valid) :
    max tape.numInputNonzeros tape.peak ≤ tape.numSlots := by
  refine Nat.max_le.mpr ⟨valid.numInputNonzeros_le, Finset.sup_le fun index member => ?_⟩
  exact valid.bounded.card_liveAfter_le (Finset.mem_range.mp member)

theorem Plain.card_neededValues_le {tape : Tape} (plain : tape.Plain) (index : Nat) :
    (neededValues (tape.outputs.map Block.slots) (tape.instructions.drop (index + 1))
      (tape.numInputNonzeros + (index + 1))).card ≤ (tape.liveAfter index).card := by
  refine Finset.card_le_card_of_injOn (Origin.ofNumber tape.numInputNonzeros) ?_
    (Origin.ofNumber_injective _).injOn
  intro value member
  rcases Finset.mem_filter.mp member with ⟨isBelow, needed⟩
  have below := Finset.mem_range.mp isBelow
  refine Finset.mem_filter.mpr ⟨?_, plain.usedAfter below needed⟩
  unfold Origin.ofNumber
  split
  · rename_i isInput
    exact start_mem_valuesBefore.mpr isInput
  · exact result_mem_valuesBefore.mpr (by omega)

theorem Plain.reuseSlots_le {tape : Tape} (plain : tape.Plain) :
    (reuseSlots tape.numInputNonzeros tape.instructions (tape.outputs.map Block.slots)).numSlots ≤
      max tape.numInputNonzeros tape.peak := by
  refine reuseSlots_numSlots_le plain.numbered (fun index instruction found => plain.needed_drop found)
    (Nat.le_max_left ..) fun index inside => ?_
  calc (neededValues (tape.outputs.map Block.slots) (tape.instructions.drop (index + 1))
        (tape.numInputNonzeros + (index + 1))).card
      ≤ (tape.liveAfter index).card := plain.card_neededValues_le index
    _ ≤ tape.peak := Finset.le_sup (f := fun index => (tape.liveAfter index).card) (Finset.mem_range.mpr inside)
    _ ≤ max tape.numInputNonzeros tape.peak := Nat.le_max_right ..

end Tape

/-- With slot reuse a built tape has exactly the slots that its inputs and the values that are live at the same time
take, so that no valid tape with the same data flow has fewer; without it every value has a slot. Every result is
live just after its instruction. -/
theorem Graph.build_numSlots_optimal {graph : Graph} {options : BuildOptions} {inputs outputs : List Handle}
    {tape : Tape} (built : graph.build options inputs outputs = .ok tape) :
    (options.reuseSlots = true → tape.numSlots = max tape.numInputNonzeros tape.peak ∧
      ∀ other : Tape, other.Valid → tape.SameFlow other → tape.numSlots ≤ other.numSlots) ∧
    (options.reuseSlots = false → tape.numSlots = tape.numInputNonzeros + tape.instructions.length) ∧
    ∀ index < tape.instructions.length, .result index ∈ tape.liveAfter index := by
  rcases exists_plain built with ⟨plain, isPlain, same, slotsEq⟩
  refine ⟨fun reuse => ?_, fun noReuse => ?_, fun index inside => ?_⟩
  · have atMost : tape.numSlots ≤ max tape.numInputNonzeros tape.peak := by
      rw [slotsEq, assignSlots, if_pos reuse, ← same.numInputNonzeros_eq, ← same.peak_eq]
      exact isPlain.reuseSlots_le
    refine ⟨Nat.le_antisymm atMost (build_valid built).1.peak_le, fun other valid sameFlow => ?_⟩
    rw [sameFlow.numInputNonzeros_eq, sameFlow.peak_eq] at atMost
    exact Nat.le_trans atMost valid.peak_le
  · rw [slotsEq, noReuse, ← same.numInputNonzeros_eq, ← same.length_eq]
    rfl
  · exact Finset.mem_filter.mpr ⟨Tape.result_mem_valuesBefore.mpr (Nat.lt_succ_self index),
      build_result_usedAfter built inside⟩

/-- The double of a vector of two entries takes one slot more than its input if slots are reused, and three more if
not. -/
theorem Graph.doubling_numSlots_optimal :
    (∃ tape, doubling.build ⟨true, false⟩ [⟨3⟩] [⟨4⟩] = .ok tape ∧ tape.numInputNonzeros = 2 ∧ tape.peak = 3 ∧
      tape.numSlots = 3 ∧ ∀ other : Tape, other.Valid → tape.SameFlow other → 3 ≤ other.numSlots) ∧
    ∃ tape, doubling.build ⟨false, false⟩ [⟨3⟩] [⟨4⟩] = .ok tape ∧ tape.instructions.length = 3 ∧
      tape.numSlots = 5 := by
  rcases doubling_eq with ⟨zero, one, two, interned, same⟩
  have built : doubling.build ⟨true, false⟩ [⟨3⟩] [⟨4⟩] = .ok ⟨[⟨.const, 2, unusedOperand, unusedOperand, two⟩,
      ⟨.binary .mul, 0, 0, 2, 0⟩, ⟨.binary .mul, 2, 1, 2, 0⟩], 3, [⟨"x", ⟨2, [[0, 1]]⟩, [0, 1]⟩],
      [⟨"o0", ⟨2, [[0, 1]]⟩, [0, 2]⟩]⟩ := by
    rw [build, emitAll, postOrder_doubling, same]
    cbv
  have plainBuilt : doubling.build ⟨false, false⟩ [⟨3⟩] [⟨4⟩] = .ok ⟨[⟨.const, 2, unusedOperand, unusedOperand, two⟩,
      ⟨.binary .mul, 3, 0, 2, 0⟩, ⟨.binary .mul, 4, 1, 2, 0⟩], 5, [⟨"x", ⟨2, [[0, 1]]⟩, [0, 1]⟩],
      [⟨"o0", ⟨2, [[0, 1]]⟩, [3, 4]⟩]⟩ := by
    rw [build, emitAll, postOrder_doubling, same]
    cbv
  rcases (build_numSlots_optimal built).1 rfl with ⟨slotsEq, optimal⟩
  have plainSlots := (build_numSlots_optimal plainBuilt).2.1 rfl
  refine ⟨⟨_, built, rfl, ?_, rfl, optimal⟩, _, plainBuilt, rfl, plainSlots⟩
  -- The two inputs alone do not explain three slots.
  rw [Nat.max_def] at slotsEq
  split at slotsEq
  · exact slotsEq.symm
  · cases slotsEq

end Autodiff
