import Autodiff.Lowering.Slots
import Autodiff.Proofs.Lowering.Pruning
import Autodiff.Proofs.Tape.Linked

/-!
# Slot reuse keeps needed values apart

Slots are handed out again while a program is traversed. The invariant is `Separated`: values that an
output or a later instruction still needs have pairwise distinct slots, and no free slot is among them.
An operand gives up its slot at its last use, so the slot may go to the very instruction that reads
it; this is why the invariant speaks of what is needed after the instruction only.

It follows that the program over slots is linked to the program over values (`Linked`), where a value
is linked to its slot as long as it is needed.
-/

namespace Autodiff

variable {value numInputs : Nat} {program : List Instruction}

theorem Needed.cons {outputs : List (List Nat)} {instruction : Instruction} {rest : List Instruction}
    (needed : Needed outputs rest value) :
    Needed outputs (instruction :: rest) value := by
  rcases needed with inOutput | ⟨reader, member, isOperand⟩
  · exact .inl inOutput
  · exact .inr ⟨reader, List.mem_cons_of_mem _ member, isOperand⟩

theorem needed_of_operand {outputs : List (List Nat)} {instruction : Instruction} (rest : List Instruction)
    (isOperand : value ∈ instruction.operands) :
    Needed outputs (instruction :: rest) value :=
  .inr ⟨instruction, List.mem_cons_self .., isOperand⟩

/-! ## Last uses -/

theorem size_markUses (uses : Array (Option Nat)) (numbered : Instruction × Nat) :
    (markUses uses numbered).size = uses.size := by
  unfold markUses
  generalize numbered.1.operands = operands
  induction operands generalizing uses with
  | nil => rfl
  | cons value values ih => simp only [List.foldl_cons, ih, Array.size_setIfInBounds]

theorem getD_markUses (uses : Array (Option Nat)) (instruction : Instruction) (index : Nat)
    (inside : value < uses.size) :
    (markUses uses (instruction, index)).getD value none =
      if value ∈ instruction.operands then some index else uses.getD value none := by
  unfold markUses
  generalize instruction.operands = operands
  induction operands generalizing uses with
  | nil => simp
  | cons operand operands ih =>
      rw [List.foldl_cons, ih _ (by simpa using inside)]
      by_cases later : value ∈ operands
      · simp [later]
      · by_cases same : operand = value
        · simp [same, inside]
        · simp [later, same, Ne.symm same]

theorem lastUse_mono {rest : List Instruction} {uses : Array (Option Nat)} {start use : Nat}
    (inside : value < uses.size) (noted : uses.getD value none = some use) (before : use ≤ start) :
    ∃ later, use ≤ later ∧
      ((rest.zipIdx start).foldl markUses uses).getD value none = some later := by
  induction rest generalizing uses start use with
  | nil => exact ⟨use, Nat.le_refl _, noted⟩
  | cons instruction rest ih =>
      simp only [List.zipIdx_cons, List.foldl_cons]
      have stillInside : value < (markUses uses (instruction, start)).size := by
        rwa [size_markUses]
      have marked := getD_markUses uses instruction start inside
      by_cases isOperand : value ∈ instruction.operands
      · rw [if_pos isOperand] at marked
        rcases ih stillInside marked (Nat.le_succ start) with ⟨later, after, found⟩
        exact ⟨later, by omega, found⟩
      · rw [if_neg isOperand, noted] at marked
        exact ih stillInside marked (Nat.le_succ_of_le before)

/-- No instruction reads a value after its last use. -/
def UsesCover (uses : Array (Option Nat)) (start : Nat) (rest : List Instruction) : Prop :=
  ∀ index instruction, rest[index]? = some instruction → ∀ value ∈ instruction.operands,
    ∃ use, start + index ≤ use ∧ uses.getD value none = some use

theorem usesCover_foldl {rest : List Instruction} {uses : Array (Option Nat)} (start : Nat)
    (inside : ∀ instruction ∈ rest, ∀ value ∈ instruction.operands, value < uses.size) :
    UsesCover ((rest.zipIdx start).foldl markUses uses) start rest := by
  induction rest generalizing uses start with
  | nil => intro index instruction found; simp at found
  | cons head rest ih =>
      simp only [List.zipIdx_cons, List.foldl_cons]
      intro index instruction found value isOperand
      rcases index with _ | index
      · simp only [List.getElem?_cons_zero, Option.some.injEq] at found
        subst found
        have valueInside := inside head (List.mem_cons_self ..) value isOperand
        have marked := getD_markUses uses head start valueInside
        rw [if_pos isOperand] at marked
        exact lastUse_mono (by rwa [size_markUses]) marked (by omega)
      · have stillInside : ∀ reader ∈ rest, ∀ operand ∈ reader.operands,
            operand < (markUses uses (head, start)).size := by
          intro reader member operand isRead
          rw [size_markUses]
          exact inside reader (List.mem_cons_of_mem _ member) operand isRead
        rcases ih (start + 1) stillInside index instruction (by simpa using found) value isOperand with
          ⟨use, after, noted⟩
        exact ⟨use, by omega, noted⟩

theorem UsesCover.tail {uses : Array (Option Nat)} {start : Nat} {instruction : Instruction}
    {rest : List Instruction} (cover : UsesCover uses start (instruction :: rest)) :
    UsesCover uses (start + 1) rest := by
  intro index reader found value isOperand
  rcases cover (index + 1) reader (by simpa using found) value isOperand with ⟨use, after, noted⟩
  exact ⟨use, by omega, noted⟩

/-- A value that is used last before `start` is only needed by outputs. -/
theorem UsesCover.not_needed {uses : Array (Option Nat)} {start use : Nat} {outputs : List (List Nat)}
    {rest : List Instruction} (cover : UsesCover uses start rest) (noted : uses.getD value none = some use)
    (before : use < start) (notOutput : value ∉ outputs.flatten) : ¬Needed outputs rest value := by
  rintro (inOutput | ⟨reader, member, isOperand⟩)
  · exact notOutput inOutput
  · rcases List.mem_iff_getElem?.mp member with ⟨index, found⟩
    rcases cover index reader found value isOperand with ⟨other, after, alsoNoted⟩
    rw [noted, Option.some.injEq] at alsoNoted
    omega

/-! ## The invariant -/

namespace SlotState

/-- Needed values below `next` have distinct slots, and free slots belong to none of them. -/
structure Separated (outputs : List (List Nat)) (rest : List Instruction) (next : Nat)
    (state : SlotState) : Prop where
  inside : ∀ value < next, Needed outputs rest value → state.slot value < state.numSlots
  distinct : ∀ value < next, ∀ other < next, Needed outputs rest value →
    Needed outputs rest other → state.slot value = state.slot other → value = other
  freeNodup : state.free.Nodup
  freeInside : ∀ slot ∈ state.free, slot < state.numSlots
  freeUnused : ∀ value < next, Needed outputs rest value → state.slot value ∉ state.free

variable {outputs : List (List Nat)} {rest : List Instruction} {next index numValues : Nat}
  {state : SlotState} {instruction : Instruction} {pinned : Array Bool}
  {uses : Array (Option Nat)}

def releaseOperand (state : SlotState) (pinned : Array Bool) (uses : Array (Option Nat))
    (index : Nat) (free : List Nat) (value : Nat) : List Nat :=
  if uses.getD value none = some index && !pinned.getD value false then state.slot value :: free
  else free

/-- Free slots that no value below `next` needs after the instruction. -/
structure Spare (outputs : List (List Nat)) (rest : List Instruction) (next : Nat)
    (state : SlotState) (free : List Nat) : Prop where
  nodup : free.Nodup
  inside : ∀ slot ∈ free, slot < state.numSlots
  unused : ∀ value < next, Needed outputs rest value → state.slot value ∉ free

theorem spare_foldl (separated : Separated outputs (instruction :: rest) next state)
    (cover : UsesCover uses (index + 1) rest) (below : next ≤ numValues)
    {operands free : List Nat} (operandsNodup : operands.Nodup)
    (operandsRead : ∀ value ∈ operands, value ∈ instruction.operands ∧ value < next)
    (spare : Spare outputs rest next state free)
    (fresh : ∀ value ∈ operands, state.slot value ∉ free) :
    Spare outputs rest next state (operands.foldl
      (releaseOperand state (outputFlags numValues outputs) uses index) free) := by
  induction operands generalizing free with
  | nil => exact spare
  | cons operand operands ih =>
      rw [List.nodup_cons] at operandsNodup
      have laterRead : ∀ value ∈ operands, value ∈ instruction.operands ∧ value < next :=
        fun value member => operandsRead value (List.mem_cons_of_mem _ member)
      rcases operandsRead operand (List.mem_cons_self ..) with ⟨isOperand, operandBelow⟩
      have operandNeeded : Needed outputs (instruction :: rest) operand :=
        needed_of_operand rest isOperand
      simp only [List.foldl_cons, releaseOperand]
      split
      · rename_i isLast
        rw [Bool.and_eq_true, decide_eq_true_eq, getD_outputFlags,
          decide_eq_true (Nat.lt_of_lt_of_le operandBelow below)] at isLast
        have notNeeded : ¬Needed outputs rest operand :=
          cover.not_needed isLast.1 (Nat.lt_succ_self index) (by simpa using isLast.2)
        have operandFresh := fresh operand (List.mem_cons_self ..)
        refine ih operandsNodup.2 laterRead ⟨?_, ?_, ?_⟩ ?_
        · exact List.nodup_cons.mpr ⟨operandFresh, spare.nodup⟩
        · intro slot member
          rcases List.mem_cons.mp member with rfl | inFree
          · exact separated.inside operand operandBelow operandNeeded
          · exact spare.inside slot inFree
        · intro value valueBelow needed member
          rcases List.mem_cons.mp member with sameSlot | inFree
          · have same := separated.distinct value valueBelow operand operandBelow needed.cons
              operandNeeded sameSlot
            exact notNeeded (same ▸ needed)
          · exact spare.unused value valueBelow needed inFree
        · intro value member inFree
          rcases List.mem_cons.mp inFree with sameSlot | inFree
          · rcases laterRead value member with ⟨isRead, valueBelow⟩
            have same := separated.distinct value valueBelow operand operandBelow
              (needed_of_operand rest isRead) operandNeeded sameSlot
            exact operandsNodup.1 (same ▸ member)
          · exact fresh value (List.mem_cons_of_mem _ member) inFree
      · exact ih operandsNodup.2 laterRead spare fun value member =>
          fresh value (List.mem_cons_of_mem _ member)

theorem nodup_eraseDups_operands (instruction : Instruction) :
    instruction.operands.eraseDups.Nodup := by
  unfold Instruction.operands
  split
  · simp
  · simp [List.eraseDups_cons]
  · by_cases same : instruction.snd = instruction.fst
    · simp [List.eraseDups_cons, same]
    · simp [List.eraseDups_cons, same, Ne.symm same]

theorem Separated.release (separated : Separated outputs (instruction :: rest) next state)
    (cover : UsesCover uses (index + 1) rest) (below : next ≤ numValues)
    (operandsBelow : ∀ value ∈ instruction.operands, value < next) :
    Spare outputs rest next state
      (state.release (outputFlags numValues outputs) uses index instruction) := by
  have operandsRead : ∀ value ∈ instruction.operands.eraseDups,
      value ∈ instruction.operands ∧ value < next := by
    intro value member
    have isOperand := List.mem_eraseDups.mp member
    exact ⟨isOperand, operandsBelow value isOperand⟩
  refine spare_foldl separated cover below (nodup_eraseDups_operands instruction) operandsRead
    ⟨separated.freeNodup, separated.freeInside, ?_⟩ ?_
  · intro value valueBelow needed
    exact separated.freeUnused value valueBelow needed.cons
  · intro value member
    rcases operandsRead value member with ⟨isOperand, valueBelow⟩
    exact separated.freeUnused value valueBelow (needed_of_operand rest isOperand)

/-- The slot of a result: the first spare one, or a new one if there is none. -/
theorem step_cases (state : SlotState) (pinned : Array Bool) (uses : Array (Option Nat))
    (instruction : Instruction) (index : Nat) :
    ∃ slot free numSlots,
      state.step pinned uses (instruction, index) =
        ⟨state.slots.setIfInBounds instruction.out slot, free, numSlots,
          state.assigned.push (instruction.rename state.slot slot)⟩ ∧
      ((state.release pinned uses index instruction = slot :: free ∧ numSlots = state.numSlots) ∨
        (state.release pinned uses index instruction = [] ∧ slot = state.numSlots ∧ free = [] ∧
          numSlots = state.numSlots + 1)) := by
  cases released : state.release pinned uses index instruction with
  | nil =>
      refine ⟨state.numSlots, [], state.numSlots + 1, ?_, .inr ⟨rfl, rfl, rfl, rfl⟩⟩
      simp only [step, released]
  | cons slot free =>
      refine ⟨slot, free, state.numSlots, ?_, .inl ⟨rfl, rfl⟩⟩
      simp only [step, released]

theorem slot_assigned {slot : Nat} (inside : value < state.slots.size) (free : List Nat) (numSlots : Nat)
    (assigned : Array Instruction) :
    SlotState.slot ⟨state.slots.setIfInBounds value slot, free, numSlots, assigned⟩ value = slot := by
  simp [SlotState.slot, inside]

theorem slot_assigned_of_ne {other : Nat} (different : value ≠ other) (slot : Nat) (free : List Nat) (numSlots : Nat)
    (assigned : Array Instruction) :
    SlotState.slot ⟨state.slots.setIfInBounds other slot, free, numSlots, assigned⟩ value =
      state.slot value := by
  simp [SlotState.slot, Array.getElem?_setIfInBounds_ne different.symm]

theorem numSlots_le_step (state : SlotState) (pinned : Array Bool) (uses : Array (Option Nat))
    (numbered : Instruction × Nat) :
    state.numSlots ≤ (state.step pinned uses numbered).numSlots := by
  rcases numbered with ⟨instruction, index⟩
  rcases step_cases state pinned uses instruction index with
    ⟨slot, free, numSlots, stepped, ⟨_, rfl⟩ | ⟨_, _, _, rfl⟩⟩
  · exact stepped ▸ Nat.le_refl _
  · exact stepped ▸ Nat.le_succ _

theorem numSlots_le_foldl (state : SlotState) (pinned : Array Bool) (uses : Array (Option Nat))
    (numbered : List (Instruction × Nat)) :
    state.numSlots ≤ (numbered.foldl (step pinned uses) state).numSlots := by
  induction numbered generalizing state with
  | nil => exact Nat.le_refl _
  | cons head tail ih => exact Nat.le_trans (numSlots_le_step state pinned uses head) (ih _)

/-- A value is linked to its slot while it is needed. -/
def link (outputs : List (List Nat)) (rest : List Instruction) (next : Nat) (state : SlotState) :
    Link :=
  fun value slot => value < next ∧ Needed outputs rest value ∧ slot = state.slot value

/-- The state after an instruction, as far as the proof needs it: the slot of the result is new or
spare, and other values keep their slots. -/
structure Assigns (outputs : List (List Nat)) (rest : List Instruction) (next : Nat)
    (instruction : Instruction) (before after : SlotState) : Prop where
  numSlots_le : before.numSlots ≤ after.numSlots
  assigned : after.assigned.toList = before.assigned.toList ++
    [instruction.rename before.slot (after.slot instruction.out)]
  slot_ne : ∀ value ≠ instruction.out, after.slot value = before.slot value
  sized : after.slots.size = before.slots.size
  outInside : after.slot instruction.out < after.numSlots
  outUnused : ∀ value < next, Needed outputs rest value →
    before.slot value ≠ after.slot instruction.out
  outNotFree : after.slot instruction.out ∉ after.free
  spare : Spare outputs rest next before after.free

theorem Separated.assigns (separated : Separated outputs (instruction :: rest) next state)
    (cover : UsesCover uses (index + 1) rest) (below : next ≤ numValues)
    (operandsBelow : ∀ value ∈ instruction.operands, value < next)
    (outInside : instruction.out < state.slots.size) :
    Assigns outputs rest next instruction state
      (state.step (outputFlags numValues outputs) uses (instruction, index)) := by
  have released := separated.release cover below operandsBelow
  rcases step_cases state (outputFlags numValues outputs) uses instruction index with
    ⟨slot, free, numSlots, stepped, chosen⟩
  have outSlot : (state.step (outputFlags numValues outputs) uses (instruction, index)).slot
      instruction.out = slot := by
    rw [stepped]
    exact slot_assigned outInside ..
  have otherSlot : ∀ value ≠ instruction.out,
      (state.step (outputFlags numValues outputs) uses (instruction, index)).slot value =
        state.slot value := by
    intro value different
    rw [stepped]
    exact slot_assigned_of_ne different ..
  have picked : slot < numSlots ∧ (∀ value < next, Needed outputs rest value →
      state.slot value ≠ slot) ∧ slot ∉ free ∧ Spare outputs rest next state free := by
    rcases chosen with ⟨isReleased, rfl⟩ | ⟨_, rfl, rfl, rfl⟩
    · rw [isReleased] at released
      have nodup := List.nodup_cons.mp released.nodup
      refine ⟨released.inside slot (List.mem_cons_self ..), ?_, nodup.1, nodup.2, ?_, ?_⟩
      · intro value valueBelow needed same
        exact released.unused value valueBelow needed (same ▸ List.mem_cons_self ..)
      · intro other member
        exact released.inside other (List.mem_cons_of_mem _ member)
      · intro value valueBelow needed member
        exact released.unused value valueBelow needed (List.mem_cons_of_mem _ member)
    · refine ⟨Nat.lt_succ_self _, ?_, List.not_mem_nil, List.nodup_nil, by simp, by simp⟩
      intro value valueBelow needed
      exact Nat.ne_of_lt (separated.inside value valueBelow needed.cons)
  rcases picked with ⟨slotInside, slotUnused, slotNotFree, spare⟩
  refine ⟨numSlots_le_step .., ?_, otherSlot, ?_, ?_, ?_, ?_, ?_⟩
  · rw [outSlot, stepped, Array.toList_push]
  · rw [stepped, Array.size_setIfInBounds]
  · rw [outSlot, stepped]
    exact slotInside
  · rw [outSlot]
    exact slotUnused
  · rw [outSlot, stepped]
    exact slotNotFree
  · rw [stepped]
    exact spare

theorem Assigns.separated {after : SlotState}
    (assigns : Assigns outputs rest next instruction state after)
    (separated : Separated outputs (instruction :: rest) next state)
    (isNext : instruction.out = next) : Separated outputs rest (next + 1) after := by
  have cases : ∀ value < next + 1, value = instruction.out ∨
      (value < next ∧ after.slot value = state.slot value) := by
    intro value below
    by_cases isOut : value = instruction.out
    · exact .inl isOut
    · exact .inr ⟨by omega, assigns.slot_ne value isOut⟩
  refine ⟨?_, ?_, assigns.spare.nodup, ?_, ?_⟩
  · intro value below needed
    rcases cases value below with rfl | ⟨before, same⟩
    · exact assigns.outInside
    · rw [same]
      exact Nat.lt_of_lt_of_le (separated.inside value before needed.cons) assigns.numSlots_le
  · intro value below other otherBelow needed otherNeeded sameSlot
    rcases cases value below with rfl | ⟨before, same⟩ <;>
      rcases cases other otherBelow with rfl | ⟨otherBefore, otherSame⟩
    · rfl
    · exact absurd (otherSame.symm.trans sameSlot.symm)
        (assigns.outUnused other otherBefore otherNeeded)
    · exact absurd (same.symm.trans sameSlot) (assigns.outUnused value before needed)
    · rw [same, otherSame] at sameSlot
      exact separated.distinct value before other otherBefore needed.cons otherNeeded.cons sameSlot
  · intro slot member
    exact Nat.lt_of_lt_of_le (assigns.spare.inside slot member) assigns.numSlots_le
  · intro value below needed
    rcases cases value below with rfl | ⟨before, same⟩
    · exact assigns.outNotFree
    · rw [same]
      exact assigns.spare.unused value before needed

theorem Assigns.link_step {after : SlotState} {size : Nat}
    (assigns : Assigns outputs rest next instruction state after)
    (separated : Separated outputs (instruction :: rest) next state)
    (isNext : instruction.out = next)
    (operandsBelow : ∀ value ∈ instruction.operands, value < next)
    (below : next < numValues) (fits : after.numSlots ≤ size) :
    Link.Step numValues size (state.link outputs (instruction :: rest) next) instruction
      (instruction.rename state.slot (after.slot instruction.out))
      (after.link outputs rest (next + 1)) := by
  have slotsFit := Nat.le_trans assigns.numSlots_le fits
  refine ⟨by simp, by simp, ?_, ?_, ?_, isNext ▸ below, ?_, ?_⟩
  · rw [Instruction.operands_rename, List.forall₂_map_right_iff, List.forall₂_same]
    intro value isOperand
    exact ⟨operandsBelow value isOperand, needed_of_operand rest isOperand, rfl⟩
  · rintro value _ other _ ⟨valueBelow, needed, rfl⟩ ⟨otherBelow, otherNeeded, rfl⟩
    exact ⟨fun same => same ▸ rfl,
      separated.distinct value valueBelow other otherBelow needed otherNeeded⟩
  · rintro value _ ⟨valueBelow, needed, rfl⟩
    exact ⟨by omega, Nat.lt_of_lt_of_le (separated.inside value valueBelow needed) slotsFit⟩
  · rw [Instruction.out_rename]
    exact Nat.lt_of_lt_of_le assigns.outInside fits
  · rintro value _ ⟨valueBelow, needed, rfl⟩
    rw [Instruction.out_rename]
    by_cases isOut : value = instruction.out
    · exact .inl ⟨isOut, isOut ▸ rfl⟩
    · have before : value < next := by omega
      rw [assigns.slot_ne value isOut]
      exact .inr ⟨⟨before, needed.cons, rfl⟩, isOut, assigns.outUnused value before needed⟩

theorem Separated.linked {size : Nat} (separated : Separated outputs rest next state)
    (numbered : Numbered next rest) (cover : UsesCover uses index rest)
    (sized : state.slots.size = numValues) (below : next + rest.length ≤ numValues)
    (fits : ((rest.zipIdx index).foldl (step (outputFlags numValues outputs) uses)
      state).numSlots ≤ size) :
    let final := (rest.zipIdx index).foldl (step (outputFlags numValues outputs) uses) state
    ∃ assigned, final.assigned.toList = state.assigned.toList ++ assigned ∧
      Linked numValues size (state.link outputs rest next) rest assigned
        (final.link outputs [] (next + rest.length)) ∧
      Separated outputs [] (next + rest.length) final := by
  induction rest generalizing next index state with
  | nil => exact ⟨[], by simp, .nil _, separated⟩
  | cons instruction rest ih =>
      rcases numbered with ⟨isNext, operandsBelow, restNumbered⟩
      simp only [List.length_cons] at below
      simp only [List.zipIdx_cons, List.foldl_cons] at fits ⊢
      have assigns : Assigns outputs rest next instruction state
          (state.step (outputFlags numValues outputs) uses (instruction, index)) :=
        separated.assigns cover.tail (by omega) operandsBelow (by omega)
      have stepFits := Nat.le_trans (numSlots_le_foldl ..) fits
      rcases ih (assigns.separated separated isNext) restNumbered cover.tail
        (assigns.sized.trans sized) (by omega) fits with ⟨assigned, assignedEq, linked, last⟩
      have lengths : next + (rest.length + 1) = next + 1 + rest.length := by omega
      rw [List.length_cons, lengths]
      have stepLinked := assigns.link_step separated isNext operandsBelow
        (show next < numValues by omega) stepFits
      refine ⟨_ :: assigned, ?_, .cons stepLinked linked, last⟩
      rw [assignedEq, assigns.assigned, List.append_assoc, List.singleton_append]

end SlotState

/-! ## The whole program -/

/-- An allocation is linked to the program over values that it was made from. -/
structure Allocation.LinkedTo (numInputs : Nat) (program : List Instruction)
    (outputs : List (List Nat)) (allocation : Allocation) (before after : Link) : Prop where
  instructions : Linked (numInputs + program.length) allocation.numSlots before program
    allocation.instructions after
  outputs : List.Forall₂ (List.Forall₂ after) outputs allocation.outputs
  inputsFit : numInputs ≤ allocation.numSlots
  before_eq : ∀ ⦃value slot⦄, before value slot → value = slot ∧ value < numInputs
  matching : after.Matching
  inside : ∀ ⦃value slot⦄, after value slot →
    value < numInputs + program.length ∧ slot < allocation.numSlots

theorem size_foldl_markUses (uses : Array (Option Nat)) (numbered : List (Instruction × Nat)) :
    (numbered.foldl markUses uses).size = uses.size := by
  induction numbered generalizing uses with
  | nil => rfl
  | cons head tail ih => rw [List.foldl_cons, ih, size_markUses]

theorem size_lastUses (numValues : Nat) (program : List Instruction) :
    (lastUses numValues program).size = numValues := by
  rw [lastUses, size_foldl_markUses, Array.size_replicate]

theorem usesCover_lastUses (numbered : Numbered numInputs program) :
    UsesCover (lastUses (numInputs + program.length) program) 0 program := by
  refine usesCover_foldl 0 ?_
  intro instruction member value isOperand
  rcases numbered.of_mem member with ⟨_, outBelow, operandsBelow⟩
  have valueBelow := operandsBelow value isOperand
  rw [Array.size_replicate]
  omega

theorem SlotState.slot_start (pinned : Array Bool) {uses : Array (Option Nat)} (inside : value < uses.size) :
    (start numInputs pinned uses).slot value = value := by
  simp [start, SlotState.slot, inside]

theorem SlotState.separated_start {numValues : Nat} (outputs : List (List Nat)) {uses : Array (Option Nat)}
    (cover : UsesCover uses 0 program) (sized : uses.size = numValues) (inputsFit : numInputs ≤ numValues) :
    Separated outputs program numInputs
      (start numInputs (outputFlags numValues outputs) uses) := by
  have slotEq : ∀ value < numInputs,
      (start numInputs (outputFlags numValues outputs) uses).slot value = value := by
    intro value below
    exact slot_start _ (by omega)
  refine ⟨?_, ?_, ?_, ?_, ?_⟩
  · intro value below _
    rw [slotEq value below]
    exact below
  · intro value below other otherBelow _ _ same
    rwa [slotEq value below, slotEq other otherBelow] at same
  · exact List.Pairwise.filter _ List.nodup_range
  · intro slot member
    exact List.mem_range.mp (List.mem_filter.mp member).1
  · intro value below needed member
    rw [slotEq value below] at member
    have isFree := (List.mem_filter.mp member).2
    rw [Bool.and_eq_true, decide_eq_true_eq, getD_outputFlags,
      decide_eq_true (Nat.lt_of_lt_of_le below inputsFit)] at isFree
    rcases needed with inOutput | ⟨reader, readerMem, isOperand⟩
    · rw [decide_eq_true inOutput] at isFree
      exact absurd isFree.2 (by decide)
    · rcases List.mem_iff_getElem?.mp readerMem with ⟨index, found⟩
      rcases cover index reader found value isOperand with ⟨use, _, noted⟩
      exact absurd (isFree.1.symm.trans noted) (by simp)

theorem reuseSlots_linked {outputs : List (List Nat)} (numbered : Numbered numInputs program)
    (outputsBelow : ∀ block ∈ outputs, ∀ value ∈ block, value < numInputs + program.length) :
    ∃ before after : Link, (reuseSlots numInputs program outputs).LinkedTo numInputs
      program outputs before after := by
  let numValues := numInputs + program.length
  let uses := lastUses numValues program
  let start := SlotState.start numInputs (outputFlags numValues outputs) uses
  let final := program.zipIdx.foldl (SlotState.step (outputFlags numValues outputs) uses) start
  have sized : uses.size = numValues := size_lastUses numValues program
  have cover : UsesCover uses 0 program := usesCover_lastUses numbered
  have separated : SlotState.Separated outputs program numInputs start :=
    SlotState.separated_start outputs cover sized (Nat.le_add_right ..)
  rcases separated.linked numbered cover (Array.size_range.trans sized) (Nat.le_refl numValues)
    (Nat.le_refl final.numSlots) with ⟨assigned, assignedEq, linked, last⟩
  refine ⟨start.link outputs program numInputs, final.link outputs [] numValues,
    ⟨?_, ?_, ?_, ?_, ?_, ?_⟩⟩
  · have assignedAll : (reuseSlots numInputs program outputs).instructions = assigned := assignedEq
    rw [assignedAll]
    exact linked
  · simp only [reuseSlots, List.forall₂_map_right_iff, List.forall₂_same]
    intro block blockMem value valueMem
    exact ⟨outputsBelow block blockMem value valueMem,
      .inl (List.mem_flatten.mpr ⟨block, blockMem, valueMem⟩), rfl⟩
  · exact SlotState.numSlots_le_foldl start ..
  · rintro value _ ⟨below, _, rfl⟩
    exact ⟨(SlotState.slot_start _ (by omega)).symm, below⟩
  · rintro value _ other _ ⟨valueBelow, needed, rfl⟩ ⟨otherBelow, otherNeeded, rfl⟩
    exact ⟨fun same => same ▸ rfl,
      last.distinct value valueBelow other otherBelow needed otherNeeded⟩
  · rintro value _ ⟨valueBelow, needed, rfl⟩
    exact ⟨valueBelow, last.inside value valueBelow needed⟩

/-! ## What an allocation keeps -/

namespace SlotState

/-- Every instruction is assigned under new names and takes at most one new slot. -/
theorem exists_assigned (pinned : Array Bool) (uses : Array (Option Nat)) (state : SlotState)
    (numbered : List (Instruction × Nat)) :
    ∃ assigned, (numbered.foldl (step pinned uses) state).assigned.toList =
        state.assigned.toList ++ assigned ∧
      List.Forall₂ Instruction.Renames (numbered.map Prod.fst) assigned ∧
      (numbered.foldl (step pinned uses) state).numSlots ≤ state.numSlots + numbered.length := by
  induction numbered generalizing state with
  | nil => exact ⟨[], by simp, .nil, Nat.le_refl _⟩
  | cons head numbered ih =>
      rcases head with ⟨instruction, index⟩
      rcases step_cases state pinned uses instruction index with ⟨slot, free, numSlots, stepped, chosen⟩
      have fits : numSlots ≤ state.numSlots + 1 := by
        rcases chosen with ⟨_, rfl⟩ | ⟨_, _, _, rfl⟩ <;> omega
      rw [List.foldl_cons, stepped]
      rcases ih ⟨state.slots.setIfInBounds instruction.out slot, free, numSlots,
        state.assigned.push (instruction.rename state.slot slot)⟩ with ⟨assigned, assignedEq, renames, bound⟩
      refine ⟨instruction.rename state.slot slot :: assigned, ?_, .cons ⟨_, _, rfl⟩ renames, ?_⟩
      · rw [assignedEq, Array.toList_push, List.append_assoc, List.singleton_append]
      · rw [List.length_cons]
        simp only at bound
        omega

end SlotState

theorem Instruction.renames_self (instruction : Instruction) : instruction.Renames instruction :=
  ⟨id, instruction.out, (rename_self fun _ _ => rfl).symm⟩

/-- An allocation keeps the instructions under new names, and takes no more slots than there are values. -/
theorem assignSlots_renames (reuse : Bool) (numInputs : Nat) (instructions : List Instruction)
    (outputs : List (List Nat)) :
    List.Forall₂ Instruction.Renames instructions
        (assignSlots reuse numInputs instructions outputs).instructions ∧
      (assignSlots reuse numInputs instructions outputs).numSlots ≤ numInputs + instructions.length := by
  cases reuse with
  | false => exact ⟨List.forall₂_same.mpr fun instruction _ => instruction.renames_self, Nat.le_refl _⟩
  | true =>
      let numValues := numInputs + instructions.length
      let pinned := outputFlags numValues outputs
      let uses := lastUses numValues instructions
      rcases SlotState.exists_assigned pinned uses (.start numInputs pinned uses) instructions.zipIdx with
        ⟨assigned, assignedEq, renames, bound⟩
      rw [List.zipIdx_map_fst] at renames
      rw [List.length_zipIdx] at bound
      have assignedAll : (reuseSlots numInputs instructions outputs).instructions = assigned := assignedEq
      simp only [assignSlots, if_true, assignedAll]
      exact ⟨renames, bound⟩

end Autodiff
