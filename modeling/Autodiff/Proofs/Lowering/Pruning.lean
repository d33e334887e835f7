import Autodiff.Lowering.Pruning
import Mathlib.Data.List.Forall2

/-!
# Numbered programs and dead instructions

Before slots are assigned, the results of a program are numbered in order after the entries of the
inputs, and every instruction reads smaller values only (`Numbered`). Dropping dead instructions
keeps this: what a live instruction reads is live, so that it was renumbered before.
-/

namespace Autodiff

variable {next value : Nat} {start : Array Bool}

/-- The results are numbered in order from `next`, and operands come before results. -/
def Numbered : Nat → List Instruction → Prop
  | _, [] => True
  | next, instruction :: instructions =>
    instruction.out = next ∧ (∀ value ∈ instruction.operands, value < next) ∧
      Numbered (next + 1) instructions

namespace Numbered

theorem append_iff {first second : List Instruction} :
    Numbered next (first ++ second) ↔
      Numbered next first ∧ Numbered (next + first.length) second := by
  induction first generalizing next with
  | nil => simp [Numbered]
  | cons instruction instructions ih =>
      simp only [List.cons_append, Numbered, ih, List.length_cons, and_assoc,
        Nat.add_assoc, Nat.add_comm 1]

theorem getElem? {index : Nat} {instructions : List Instruction} {instruction : Instruction}
    (numbered : Numbered next instructions) (found : instructions[index]? = some instruction) :
    instruction.out = next + index ∧ ∀ value ∈ instruction.operands, value < next + index := by
  induction instructions generalizing next index with
  | nil => simp at found
  | cons head tail ih =>
      rcases index with _ | index
      · simp only [List.getElem?_cons_zero, Option.some.injEq] at found
        subst found
        exact ⟨numbered.1, numbered.2.1⟩
      · have later := ih numbered.2.2 (by simpa using found)
        simpa only [Nat.add_assoc, Nat.add_comm 1] using later

theorem of_mem {instructions : List Instruction} {instruction : Instruction} (numbered : Numbered next instructions)
    (member : instruction ∈ instructions) :
    next ≤ instruction.out ∧ instruction.out < next + instructions.length ∧
      ∀ value ∈ instruction.operands, value < instruction.out := by
  rcases List.mem_iff_getElem?.mp member with ⟨index, found⟩
  rcases List.getElem?_eq_some_iff.mp found with ⟨inside, _⟩
  rcases numbered.getElem? found with ⟨isNext, below⟩
  exact ⟨by omega, by omega, isNext ▸ below⟩

theorem exists_out {instructions : List Instruction} (numbered : Numbered next instructions) (atLeast : next ≤ value)
    (below : value < next + instructions.length) :
    ∃ instruction ∈ instructions, instruction.out = value := by
  have inside : value - next < instructions.length := by omega
  refine ⟨instructions[value - next], List.getElem_mem inside, ?_⟩
  have isNext := (numbered.getElem? (List.getElem?_eq_getElem inside)).1
  omega

theorem eq_of_out {program : List Instruction} (numbered : Numbered next program) {first second : Instruction}
    (firstMem : first ∈ program) (secondMem : second ∈ program) (same : first.out = second.out) : first = second := by
  rcases List.mem_iff_getElem?.mp firstMem with ⟨index, isFirst⟩
  rcases List.mem_iff_getElem?.mp secondMem with ⟨index', isSecond⟩
  have firstOut := (numbered.getElem? isFirst).1
  have secondOut := (numbered.getElem? isSecond).1
  obtain rfl : index = index' := by omega
  exact Option.some.inj (isFirst.symm.trans isSecond)

end Numbered

/-! ## Flags -/

theorem getD_raiseFlags (flags : Array Bool) (values : List Nat) (value : Nat) :
    (raiseFlags flags values).getD value false =
      (flags.getD value false || (decide (value ∈ values) && decide (value < flags.size))) := by
  induction values generalizing flags with
  | nil => simp [raiseFlags]
  | cons head tail ih =>
      have unfolded : raiseFlags flags (head :: tail) =
          raiseFlags (flags.setIfInBounds head true) tail := rfl
      rw [unfolded, ih, Array.size_setIfInBounds]
      by_cases inside : value < flags.size <;> by_cases same : head = value
      · simp [Array.getD, inside, same]
      · simp [Array.getD, inside, same, Ne.symm same]
      · simp [Array.getD, inside]
      · simp [Array.getD, inside]

@[simp] theorem size_raiseFlags (flags : Array Bool) (values : List Nat) :
    (raiseFlags flags values).size = flags.size := by
  induction values generalizing flags with
  | nil => rfl
  | cons head tail ih =>
      exact (ih (flags.setIfInBounds head true)).trans (Array.size_setIfInBounds ..)

theorem getD_outputFlags (numValues : Nat) (outputs : List (List Nat)) (value : Nat) :
    (outputFlags numValues outputs).getD value false =
      (decide (value ∈ outputs.flatten) && decide (value < numValues)) := by
  have down : (Array.replicate numValues false).getD value false = false := by
    by_cases inside : value < numValues <;> simp [inside]
  rw [outputFlags, getD_raiseFlags, down, Array.size_replicate, Bool.false_or]

theorem size_foldr_raiseOperands (instructions : List Instruction) (start : Array Bool) :
    (instructions.foldr raiseOperands start).size = start.size := by
  induction instructions with
  | nil => rfl
  | cons instruction instructions ih =>
      simp only [List.foldr_cons, raiseOperands]
      split
      · rw [size_raiseFlags, ih]
      · exact ih

theorem getD_raiseOperands_of_up {instruction : Instruction} {live : Array Bool} (up : live.getD value false = true) :
    (raiseOperands instruction live).getD value false = true := by
  simp only [raiseOperands]
  split
  · rw [getD_raiseFlags, up, Bool.true_or]
  · exact up

theorem getD_foldr_raiseOperands_of_up (instructions : List Instruction) (up : start.getD value false = true) :
    (instructions.foldr raiseOperands start).getD value false = true := by
  induction instructions with
  | nil => exact up
  | cons instruction instructions ih => exact getD_raiseOperands_of_up ih

theorem getD_raiseOperands_of_not_mem {instruction : Instruction} {live : Array Bool}
    (notOperand : value ∉ instruction.operands) :
    (raiseOperands instruction live).getD value false = live.getD value false := by
  simp only [raiseOperands]
  split
  · rw [getD_raiseFlags, decide_eq_false notOperand, Bool.false_and, Bool.or_false]
  · rfl

theorem live_operands {instructions : List Instruction} (numbered : Numbered next instructions)
    (sized : next + instructions.length ≤ start.size) {instruction : Instruction}
    (member : instruction ∈ instructions)
    (isLive : (instructions.foldr raiseOperands start).getD instruction.out false = true)
    (isOperand : value ∈ instruction.operands) :
    (instructions.foldr raiseOperands start).getD value false = true := by
  induction instructions generalizing next with
  | nil => simp at member
  | cons head tail ih =>
      rcases numbered with ⟨headOut, headBelow, tailNumbered⟩
      simp only [List.length_cons] at sized
      have headNotRead : head.out ∉ head.operands := fun read => by
        have := headBelow _ read
        omega
      simp only [List.foldr_cons] at isLive ⊢
      rcases List.mem_cons.mp member with rfl | inTail
      · rw [getD_raiseOperands_of_not_mem headNotRead] at isLive
        have inside : value < (tail.foldr raiseOperands start).size := by
          have := headBelow value isOperand
          rw [size_foldr_raiseOperands]
          omega
        rw [raiseOperands, if_pos isLive, getD_raiseFlags, decide_eq_true isOperand,
          decide_eq_true inside, Bool.true_and, Bool.or_true]
      · -- The instructions before it read smaller values, so its flag was final already.
        have later := (tailNumbered.of_mem inTail).1
        have notRead : instruction.out ∉ head.operands := fun read => by
          have := headBelow _ read
          omega
        rw [getD_raiseOperands_of_not_mem notRead] at isLive
        exact getD_raiseOperands_of_up (ih tailNumbered (by omega) inTail isLive)

/-- A flag is up from the start, or a live instruction raised it. -/
theorem exists_reader_of_live {instructions : List Instruction}
    (isLive : (instructions.foldr raiseOperands start).getD value false = true) :
    start.getD value false = true ∨ ∃ reader ∈ instructions, value ∈ reader.operands ∧
      (instructions.foldr raiseOperands start).getD reader.out false = true := by
  induction instructions with
  | nil => exact .inl isLive
  | cons head tail ih =>
      simp only [List.foldr_cons] at isLive ⊢
      by_cases reads : value ∈ head.operands ∧
          (tail.foldr raiseOperands start).getD head.out false = true
      · exact .inr ⟨head, List.mem_cons_self .., reads.1, getD_raiseOperands_of_up reads.2⟩
      · have before : (tail.foldr raiseOperands start).getD value false = true := by
          by_cases isOperand : value ∈ head.operands
          · rwa [raiseOperands, if_neg fun up => reads ⟨isOperand, up⟩] at isLive
          · rwa [getD_raiseOperands_of_not_mem isOperand] at isLive
        refine (ih before).imp_right ?_
        rintro ⟨reader, member, isOperand, readerLive⟩
        exact ⟨reader, List.mem_cons_of_mem _ member, isOperand,
          getD_raiseOperands_of_up readerLive⟩

/-! ## Renumbering -/

theorem Instruction.operands_rename (instruction : Instruction) (rename : Nat → Nat) (out : Nat) :
    (instruction.rename rename out).operands = instruction.operands.map rename := by
  cases operation : instruction.op <;>
    simp [Instruction.rename, Instruction.operands, operation]

@[simp] theorem Instruction.out_rename (instruction : Instruction) (rename : Nat → Nat)
    (out : Nat) : (instruction.rename rename out).out = out := by
  cases operation : instruction.op <;> simp [Instruction.rename, operation]

@[simp] theorem Instruction.op_rename (instruction : Instruction) (rename : Nat → Nat)
    (out : Nat) : (instruction.rename rename out).op = instruction.op := by
  cases operation : instruction.op <;> simp [Instruction.rename, operation]

@[simp] theorem Instruction.literal_rename (instruction : Instruction) (rename : Nat → Nat)
    (out : Nat) : (instruction.rename rename out).literal = instruction.literal := by
  cases operation : instruction.op <;> simp [Instruction.rename, operation]

theorem Instruction.rename_congr {instruction : Instruction} {rename rename' : Nat → Nat}
    (same : ∀ value ∈ instruction.operands, rename value = rename' value) (out : Nat) :
    instruction.rename rename out = instruction.rename rename' out := by
  cases operation : instruction.op <;>
    simp_all [Instruction.rename, Instruction.operands]

theorem Instruction.rename_rename (instruction : Instruction) (first second : Nat → Nat) (between out : Nat) :
    (instruction.rename first between).rename second out = instruction.rename (second ∘ first) out := by
  cases operation : instruction.op <;> simp [Instruction.rename, operation]

theorem Instruction.rename_self {instruction : Instruction} {rename : Nat → Nat}
    (same : ∀ operand ∈ instruction.operands, rename operand = operand) :
    instruction.rename rename instruction.out = instruction := by
  rcases instruction with ⟨op, out, fst, snd, literal⟩
  cases op <;> simp_all [Instruction.rename, Instruction.operands]

namespace Renumbering

def isKept (live : Array Bool) (instruction : Instruction) : Bool :=
  live.getD instruction.out false

/-- What holds after the instructions `done`: the live ones are kept under their new numbers, and
these are without gaps. -/
structure Sound (numInputs : Nat) (live : Array Bool) (done : List Instruction)
    (renumbering : Renumbering) : Prop where
  kept_eq : renumbering.kept.toList = (done.filter (isKept live)).map fun instruction =>
    instruction.rename renumbering.number (renumbering.number instruction.out)
  numbered : Numbered numInputs renumbering.kept.toList
  inputs : ∀ value < numInputs, renumbering.number value = value
  below : ∀ instruction ∈ done, isKept live instruction →
    renumbering.number instruction.out < numInputs + renumbering.kept.size

variable {numInputs : Nat} {live : Array Bool} {done rest : List Instruction}
  {renumbering : Renumbering} {instruction : Instruction}

theorem number_step_of_ne (renumbering : Renumbering) (different : value ≠ instruction.out) :
    (renumbering.step numInputs live instruction).number value = renumbering.number value := by
  simp only [step]
  split
  · simp [number, Array.getElem?_setIfInBounds_ne different.symm]
  · rfl

theorem number_step_out (numInputs : Nat) (isLive : isKept live instruction)
    (inside : instruction.out < renumbering.numbers.size) :
    (renumbering.step numInputs live instruction).number instruction.out =
      numInputs + renumbering.kept.size := by
  simp only [step, isKept] at isLive ⊢
  simp [number, isLive, inside]

theorem kept_step_of_live (numInputs : Nat) (renumbering : Renumbering)
    (isLive : isKept live instruction) :
    (renumbering.step numInputs live instruction).kept = renumbering.kept.push
      (instruction.rename (renumbering.step numInputs live instruction).number
        (numInputs + renumbering.kept.size)) := by
  simp only [isKept] at isLive
  simp only [step, isLive, if_true]
  rfl

theorem Sound.kept_congr (sound : Sound numInputs live done renumbering)
    {other : Renumbering} (numbered : Numbered numInputs done)
    (same : ∀ value < numInputs + done.length, other.number value = renumbering.number value) :
    renumbering.kept.toList = (done.filter (isKept live)).map fun instruction =>
      instruction.rename other.number (other.number instruction.out) := by
  rw [sound.kept_eq]
  apply List.map_congr_left
  intro instruction member
  rcases numbered.of_mem (List.mem_filter.mp member |>.1) with ⟨_, outBelow, operandsBelow⟩
  rw [same _ outBelow]
  apply Instruction.rename_congr
  intro value isOperand
  have valueBelow := operandsBelow value isOperand
  exact (same value (by omega)).symm

theorem Sound.number_lt (sound : Sound numInputs live done renumbering) (numbered : Numbered numInputs done)
    (isLive : live.getD value false = true) (below : value < numInputs + done.length) :
    renumbering.number value < numInputs + renumbering.kept.size := by
  by_cases isInput : value < numInputs
  · rw [sound.inputs value isInput]
    omega
  · rcases numbered.exists_out (by omega) below with ⟨instruction, member, rfl⟩
    exact sound.below instruction member isLive

theorem Sound.number_out (sound : Sound numInputs live done renumbering) {index : Nat}
    (found : (done.filter (isKept live))[index]? = some instruction) :
    renumbering.number instruction.out = numInputs + index := by
  have kept : renumbering.kept.toList[index]? =
      some (instruction.rename renumbering.number (renumbering.number instruction.out)) := by
    rw [sound.kept_eq, List.getElem?_map, found, Option.map_some]
  simpa using (sound.numbered.getElem? kept).1

theorem Sound.number_injective (sound : Sound numInputs live done renumbering) (numbered : Numbered numInputs done)
    {other : Nat} (isLive : live.getD value false = true) (below : value < numInputs + done.length)
    (otherLive : live.getD other false = true) (otherBelow : other < numInputs + done.length)
    (same : renumbering.number value = renumbering.number other) : value = other := by
  have position : ∀ {value}, live.getD value false = true → numInputs ≤ value →
      value < numInputs + done.length → ∃ (index : Nat) (instruction : Instruction),
        (done.filter (isKept live))[index]? = some instruction ∧ instruction.out = value := by
    intro value isLive atLeast below
    rcases numbered.exists_out atLeast below with ⟨instruction, member, rfl⟩
    have isFiltered : instruction ∈ done.filter (isKept live) := List.mem_filter.mpr ⟨member, isLive⟩
    rcases List.mem_iff_getElem?.mp isFiltered with ⟨index, found⟩
    exact ⟨index, instruction, found, rfl⟩
  by_cases isInput : value < numInputs <;> by_cases otherInput : other < numInputs
  · rwa [sound.inputs value isInput, sound.inputs other otherInput] at same
  · rcases position otherLive (by omega) otherBelow with ⟨index, instruction, found, rfl⟩
    rw [sound.inputs value isInput, sound.number_out found] at same
    omega
  · rcases position isLive (by omega) below with ⟨index, instruction, found, rfl⟩
    rw [sound.inputs other otherInput, sound.number_out found] at same
    omega
  · rcases position isLive (by omega) below with ⟨index, instruction, found, rfl⟩
    rcases position otherLive (by omega) otherBelow with ⟨index', instruction', found', rfl⟩
    rw [sound.number_out found, sound.number_out found', Nat.add_left_cancel_iff] at same
    subst same
    rw [Option.some.inj (found.symm.trans found')]

theorem Sound.step (sound : Sound numInputs live done renumbering)
    (numbered : Numbered numInputs (done ++ [instruction]))
    (sized : numInputs + done.length < renumbering.numbers.size)
    (closed : isKept live instruction → ∀ value ∈ instruction.operands,
      live.getD value false = true) :
    Sound numInputs live (done ++ [instruction]) (renumbering.step numInputs live instruction) := by
  rcases Numbered.append_iff.mp numbered with ⟨doneNumbered, outEq, operandsBelow, _⟩
  have same : ∀ value < numInputs + done.length,
      (renumbering.step numInputs live instruction).number value = renumbering.number value := by
    intro value below
    exact number_step_of_ne renumbering (by omega)
  have inputs : ∀ value < numInputs,
      (renumbering.step numInputs live instruction).number value = value := by
    intro value isInput
    rw [same value (by omega), sound.inputs value isInput]
  have keptBefore := sound.kept_congr doneNumbered same
  by_cases isLive : isKept live instruction
  · have outNumber := number_step_out numInputs isLive (outEq ▸ sized)
    have keptNow := kept_step_of_live numInputs renumbering isLive
    refine ⟨?_, ?_, inputs, ?_⟩
    · rw [keptNow, Array.toList_push, keptBefore, List.filter_append, List.map_append]
      simp [isLive, outNumber]
    · rw [keptNow, Array.toList_push, Numbered.append_iff]
      refine ⟨sound.numbered, by simp, ?_, trivial⟩
      intro number isOperand
      rw [Instruction.operands_rename, List.mem_map] at isOperand
      rcases isOperand with ⟨value, isOperand, rfl⟩
      have valueBelow := operandsBelow value isOperand
      rw [same value valueBelow, Array.length_toList]
      exact sound.number_lt doneNumbered (closed isLive value isOperand) valueBelow
    · intro other member otherLive
      rw [keptNow, Array.size_push]
      rcases List.mem_append.mp member with before | last
      · have outBelow := (doneNumbered.of_mem before).2.1
        have numberBelow := sound.below other before otherLive
        rw [same _ outBelow]
        omega
      · rw [List.mem_singleton.mp last, outNumber]
        omega
  · have keptNow : (renumbering.step numInputs live instruction).kept = renumbering.kept := by
      simp only [isKept] at isLive
      simp [Renumbering.step, isLive]
    refine ⟨?_, keptNow ▸ sound.numbered, inputs, ?_⟩
    · rw [keptNow, keptBefore, List.filter_append]
      simp [isLive]
    · intro other member otherLive
      rcases List.mem_append.mp member with before | last
      · rw [keptNow, same _ (doneNumbered.of_mem before).2.1]
        exact sound.below other before otherLive
      · exact absurd (List.mem_singleton.mp last ▸ otherLive) isLive

theorem size_numbers_step (numInputs : Nat) (live : Array Bool) (renumbering : Renumbering)
    (instruction : Instruction) :
    (renumbering.step numInputs live instruction).numbers.size = renumbering.numbers.size := by
  simp only [step]
  split
  · simp
  · rfl

theorem Sound.run (sound : Sound numInputs live done renumbering)
    (numbered : Numbered numInputs (done ++ rest))
    (sized : renumbering.numbers.size = numInputs + (done ++ rest).length)
    (closed : ∀ instruction ∈ done ++ rest, isKept live instruction →
      ∀ value ∈ instruction.operands, live.getD value false = true) :
    Sound numInputs live (done ++ rest) (rest.foldl (Renumbering.step numInputs live) renumbering) := by
  induction rest generalizing done renumbering with
  | nil => simpa using sound
  | cons instruction rest ih =>
      have split : done ++ instruction :: rest = (done ++ [instruction]) ++ rest := by simp
      rw [split] at numbered sized closed ⊢
      refine ih (sound.step (Numbered.append_iff.mp numbered).1 ?_ ?_) numbered ?_ closed
      · simp only [sized, List.length_append, List.length_singleton]
        omega
      · exact closed instruction (by simp)
      · rw [size_numbers_step, sized]

end Renumbering

/-! ## The whole program -/

/-- A value that occurs in an output or is read by one of the instructions `rest`. -/
def Needed (outputs : List (List Nat)) (rest : List Instruction) (value : Nat) : Prop :=
  value ∈ outputs.flatten ∨ ∃ instruction ∈ rest, value ∈ instruction.operands

/-- What pruning leaves of a program: the live instructions under their new numbers, all of them
needed. -/
structure Pruned (numInputs : Nat) (instructions : List Instruction) (outputs : List (List Nat))
    (kept : List Instruction) (keptOutputs : List (List Nat)) (live : Nat → Bool)
    (number : Nat → Nat) : Prop where
  outputs_eq : keptOutputs = outputs.map fun block => block.map number
  kept_eq : kept = (instructions.filter fun instruction => live instruction.out).map
    fun instruction => instruction.rename number (number instruction.out)
  closed : ∀ instruction ∈ instructions, live instruction.out →
    ∀ value ∈ instruction.operands, live value
  outputs_live : ∀ block ∈ outputs, ∀ value ∈ block, live value
  outputs_below : ∀ block ∈ outputs, ∀ value ∈ block, value < numInputs + instructions.length
  inputs : ∀ value < numInputs, number value = value
  numbered : Numbered numInputs kept
  number_lt : ∀ value < numInputs + instructions.length, live value →
    number value < numInputs + kept.length
  number_injective : ∀ value < numInputs + instructions.length, live value →
    ∀ other < numInputs + instructions.length, live other → number value = number other →
      value = other
  needed : ∀ instruction ∈ kept, Needed keptOutputs kept instruction.out

section Pruned

variable {numInputs : Nat} {instructions kept : List Instruction}
  {outputs keptOutputs : List (List Nat)} {live : Nat → Bool} {number : Nat → Nat}
  (pruned : Pruned numInputs instructions outputs kept keptOutputs live number)
include pruned

theorem Pruned.kept_mem {instruction : Instruction} (member : instruction ∈ instructions)
    (isLive : live instruction.out) :
    instruction.rename number (number instruction.out) ∈ kept := by
  rw [pruned.kept_eq]
  exact List.mem_map_of_mem (List.mem_filter.mpr ⟨member, isLive⟩)

theorem Pruned.exists_original {renamed : Instruction} (member : renamed ∈ kept) :
    ∃ instruction ∈ instructions, live instruction.out ∧
      renamed = instruction.rename number (number instruction.out) := by
  rw [pruned.kept_eq] at member
  rcases List.mem_map.mp member with ⟨instruction, isKept, rfl⟩
  rcases List.mem_filter.mp isKept with ⟨isInstruction, isLive⟩
  exact ⟨instruction, isInstruction, isLive, rfl⟩

/-- Live values become existing ones, in particular those of the outputs. -/
theorem Pruned.outputs_lt :
    ∀ block ∈ keptOutputs, ∀ value ∈ block, value < numInputs + kept.length := by
  intro block blockMem value valueMem
  rw [pruned.outputs_eq, List.mem_map] at blockMem
  rcases blockMem with ⟨original, originalMem, rfl⟩
  rcases List.mem_map.mp valueMem with ⟨old, oldMem, rfl⟩
  exact pruned.number_lt old (pruned.outputs_below original originalMem old oldMem)
    (pruned.outputs_live original originalMem old oldMem)

end Pruned

theorem prune_pruned {numInputs : Nat} {instructions : List Instruction}
    {outputs : List (List Nat)} (numbered : Numbered numInputs instructions)
    (outputsBelow : ∀ block ∈ outputs, ∀ value ∈ block, value < numInputs + instructions.length) :
    ∃ live number, Pruned numInputs instructions outputs (prune numInputs instructions outputs).1
      (prune numInputs instructions outputs).2 live number := by
  let live := liveValues numInputs instructions outputs
  let start : Renumbering := { numbers := Array.range (numInputs + instructions.length) }
  have closed : ∀ instruction ∈ instructions, Renumbering.isKept live instruction →
      ∀ value ∈ instruction.operands, live.getD value false = true := by
    intro instruction member isLive value isOperand
    exact live_operands numbered (by simp [outputFlags]) member isLive isOperand
  have initial : Renumbering.Sound numInputs live [] start := by
    refine ⟨rfl, trivial, ?_, by simp⟩
    intro value isInput
    have inside : value < numInputs + instructions.length := by omega
    simp [start, Renumbering.number, inside]
  have final : Renumbering.Sound numInputs live instructions
      (instructions.foldl (Renumbering.step numInputs live) start) :=
    initial.run numbered (by simp [start]) closed
  let number := (instructions.foldl (Renumbering.step numInputs live) start).number
  have keptMem : ∀ instruction ∈ instructions, live.getD instruction.out false = true →
      instruction.rename number (number instruction.out) ∈
        (prune numInputs instructions outputs).1 := by
    intro instruction member isLive
    simp only [prune]
    rw [final.kept_eq, List.mem_map]
    exact ⟨instruction, List.mem_filter.mpr ⟨member, isLive⟩, rfl⟩
  refine ⟨fun value => live.getD value false, number, ⟨rfl, final.kept_eq, closed, ?_, outputsBelow,
    final.inputs, final.numbered, ?_, ?_, ?_⟩⟩
  · intro block blockMem value valueMem
    refine getD_foldr_raiseOperands_of_up instructions ?_
    rw [getD_outputFlags, decide_eq_true (List.mem_flatten.mpr ⟨block, blockMem, valueMem⟩),
      decide_eq_true (outputsBelow block blockMem value valueMem), Bool.and_self]
  · intro value below isLive
    have numberBelow := final.number_lt numbered isLive below
    rwa [← Array.length_toList] at numberBelow
  · intro value below isLive other otherBelow otherLive same
    exact final.number_injective numbered isLive below otherLive otherBelow same
  · intro instruction member
    have isKept : instruction ∈ (instructions.filter (Renumbering.isKept live)).map
        fun instruction => instruction.rename number (number instruction.out) := by
      rwa [← final.kept_eq]
    rcases List.mem_map.mp isKept with ⟨old, oldMem, rfl⟩
    rw [Instruction.out_rename]
    rcases exists_reader_of_live (List.mem_filter.mp oldMem).2 with
      inOutput | ⟨reader, readerMem, isOperand, readerLive⟩
    · rw [getD_outputFlags, Bool.and_eq_true, decide_eq_true_eq, List.mem_flatten] at inOutput
      rcases inOutput.1 with ⟨block, blockMem, valueMem⟩
      exact .inl (List.mem_flatten.mpr ⟨block.map number, List.mem_map_of_mem blockMem,
        List.mem_map_of_mem valueMem⟩)
    · refine .inr ⟨_, keptMem reader readerMem readerLive, ?_⟩
      rw [Instruction.operands_rename]
      exact List.mem_map_of_mem isOperand

/-! ## What is kept -/

def Instruction.Renames (instruction renamed : Instruction) : Prop :=
  ∃ rename out, renamed = instruction.rename rename out

theorem Renumbering.exists_kept (numInputs : Nat) (live : Array Bool) (renumbering : Renumbering)
    (instructions : List Instruction) :
    ∃ chosen kept, (instructions.foldl (step numInputs live) renumbering).kept.toList =
        renumbering.kept.toList ++ kept ∧
      chosen.Sublist instructions ∧ List.Forall₂ Instruction.Renames chosen kept := by
  induction instructions generalizing renumbering with
  | nil => exact ⟨[], [], by simp, .slnil, .nil⟩
  | cons instruction instructions ih =>
      rcases ih (step numInputs live renumbering instruction) with ⟨chosen, kept, keptEq, sublist, renames⟩
      rw [List.foldl_cons, keptEq]
      by_cases isLive : live.getD instruction.out false
      · rw [step, if_pos isLive, Array.toList_push, List.append_assoc, List.singleton_append]
        exact ⟨instruction :: chosen, _, rfl, sublist.cons_cons _, .cons ⟨_, _, rfl⟩ renames⟩
      · rw [step, if_neg isLive]
        exact ⟨chosen, kept, rfl, sublist.cons _, renames⟩

theorem prune_renames (numInputs : Nat) (instructions : List Instruction) (outputs : List (List Nat)) :
    ∃ chosen : List Instruction, chosen.Sublist instructions ∧
      List.Forall₂ Instruction.Renames chosen (prune numInputs instructions outputs).1 := by
  rcases Renumbering.exists_kept numInputs (liveValues numInputs instructions outputs)
    { numbers := Array.range (numInputs + instructions.length) } instructions with
    ⟨chosen, kept, keptEq, sublist, renames⟩
  exact ⟨chosen, sublist, by rwa [prune, keptEq]⟩

end Autodiff
