import Autodiff.Proofs.Tape.DataFlow
import Autodiff.Proofs.Tape.Validity
import Mathlib.Data.Finset.Card
import Mathlib.Data.Finset.Range

/-!
# Live values

The values of a tape are the stored entries of its inputs and the results of its instructions. A value is live just
after an instruction if it exists by then and is used later: another instruction reads it, or it is an entry of an
output. Live values are in slots of their own, so that no tape has fewer slots than live values
(`Bounded.card_liveAfter_le`).

Which slots the values are in makes no difference to this. Linked tapes have the same data flow (`SameFlow`), and
tapes with the same data flow have the same live values.
-/

namespace Autodiff

deriving instance DecidableEq for Origin

/-! ## What a slot holds -/

/-- What a slot holds after all the instructions: the result of the last one that writes to it. -/
def holder (instructions : List Instruction) (slot : Nat) : Origin :=
  instructions.zipIdx.foldl
    (fun held numbered => if slot = numbered.1.out then .result numbered.2 else held) (.start slot)

section Holder

variable {instructions : List Instruction} {slot time : Nat} {value : Origin}

theorem holder_append_singleton (instructions : List Instruction) (instruction : Instruction) (slot : Nat) :
    holder (instructions ++ [instruction]) slot =
      if slot = instruction.out then .result instructions.length else holder instructions slot := by
  simp [holder, List.zipIdx_append]

theorem supplies_zero : Supplies instructions slot 0 value ↔ value = .start slot := by
  constructor
  · intro supplies
    cases supplies with
    | start _ => rfl
    | result _ _ earlier => omega
  · rintro rfl
    exact .start fun index instruction _ before => by omega

/-- At every time exactly one value supplies a slot. -/
theorem supplies_iff_holder (inside : time ≤ instructions.length) :
    Supplies instructions slot time value ↔ holder (instructions.take time) slot = value := by
  induction time with
  | zero => rw [supplies_zero, List.take_zero, eq_comm]; rfl
  | succ time ih =>
      have found : instructions[time]? = some instructions[time] := List.getElem?_eq_getElem inside
      have length : (instructions.take time).length = time := List.length_take_of_le (by omega)
      rw [supplies_succ found, ih (by omega), List.take_add_one, found, Option.toList_some,
        holder_append_singleton, length]
      split
      · exact eq_comm
      · rfl

theorem feeds_result_iff {index : Nat} :
    Feeds instructions value (.result index) ↔ ∃ instruction, instructions[index]? = some instruction ∧
      ∃ operand ∈ instruction.operands, Supplies instructions operand index value := by
  constructor
  · rintro ⟨found, isOperand, supplies⟩
    exact ⟨_, found, _, isOperand, supplies⟩
  · rintro ⟨instruction, found, operand, isOperand, supplies⟩
    exact .operand found isOperand supplies

/-- What an operand holds was there at every time since it came to exist. -/
theorem Supplies.earlier {later : Nat} (supplies : Supplies instructions slot later value) (before : time ≤ later)
    (existed : ∀ index, value = .result index → index < time) : Supplies instructions slot time value := by
  cases supplies with
  | start unwritten =>
      exact .start fun index instruction after earlier => unwritten after (by omega)
  | result found writes _ latest =>
      exact .result found writes (existed _ rfl) fun index instruction after earlier =>
        latest after (by omega)

end Holder

namespace Tape

/-! ## Live values -/

variable (tape : Tape)

def valuesBefore (time : Nat) : Finset Origin :=
  (Finset.range tape.numInputNonzeros).image .start ∪ (Finset.range time).image .result

def Yields (value : Origin) : Prop :=
  ∃ block ∈ tape.outputs, ∃ slot ∈ block.slots,
    Supplies tape.instructions slot tape.instructions.length value

/-- The value is an entry of an output, or an instruction after number `index` reads it. -/
def UsedAfter (index : Nat) (value : Origin) : Prop :=
  tape.Yields value ∨ ∃ later > index, Feeds tape.instructions value (.result later)

variable {tape} {index time : Nat} {value : Origin}

@[simp] theorem start_mem_valuesBefore {slot : Nat} :
    .start slot ∈ tape.valuesBefore time ↔ slot < tape.numInputNonzeros := by
  simp [valuesBefore]

@[simp] theorem result_mem_valuesBefore : .result index ∈ tape.valuesBefore time ↔ index < time := by
  simp [valuesBefore]

theorem yields_iff_holder : tape.Yields value ↔
    ∃ block ∈ tape.outputs, ∃ slot ∈ block.slots, holder tape.instructions slot = value := by
  simp only [Yields, supplies_iff_holder (Nat.le_refl _), List.take_length]

theorem usedAfter_iff_holder : tape.UsedAfter index value ↔
    (∃ block ∈ tape.outputs, ∃ slot ∈ block.slots, holder tape.instructions slot = value) ∨
      ∃ reader ∈ tape.instructions.zipIdx, index < reader.2 ∧ ∃ operand ∈ reader.1.operands,
        holder (tape.instructions.take reader.2) operand = value := by
  rw [UsedAfter, yields_iff_holder]
  refine or_congr_right ?_
  constructor
  · rintro ⟨later, after, feeds⟩
    rcases feeds_result_iff.mp feeds with ⟨instruction, found, operand, isOperand, supplies⟩
    have inside := (List.getElem?_eq_some_iff.mp found).1
    exact ⟨(instruction, later), List.mem_zipIdx_iff_getElem?.mpr found, after, operand, isOperand,
      (supplies_iff_holder (by omega)).mp supplies⟩
  · rintro ⟨⟨instruction, later⟩, member, after, operand, isOperand, held⟩
    have found := List.mem_zipIdx_iff_getElem?.mp member
    have inside := (List.getElem?_eq_some_iff.mp found).1
    exact ⟨later, after, .operand found isOperand ((supplies_iff_holder (by omega)).mpr held)⟩

instance : DecidablePred (tape.UsedAfter index) :=
  fun _ => decidable_of_iff _ usedAfter_iff_holder.symm

def liveAfter (tape : Tape) (index : Nat) : Finset Origin :=
  (tape.valuesBefore (index + 1)).filter (tape.UsedAfter index)

theorem Bounded.exists_slot (bounded : tape.Bounded) (inside : index < tape.instructions.length)
    (live : value ∈ tape.liveAfter index) :
    ∃ slot < tape.numSlots, Supplies tape.instructions slot (index + 1) value := by
  rcases Finset.mem_filter.mp live with ⟨isValue, used⟩
  have isEarlier : ∀ number, value = .result number → number < index + 1 := by
    rintro number rfl
    exact result_mem_valuesBefore.mp isValue
  rcases used with ⟨block, blockMem, slot, slotMem, supplies⟩ | ⟨later, after, feeds⟩
  · exact ⟨slot, bounded.outputs block blockMem slot slotMem, supplies.earlier inside isEarlier⟩
  · rcases feeds_result_iff.mp feeds with ⟨instruction, found, operand, isOperand, supplies⟩
    exact ⟨operand, (bounded.instructions instruction (List.mem_of_getElem? found)).2 operand isOperand,
      supplies.earlier after isEarlier⟩

/-- A tape has a slot for every value that is live at the same time. -/
theorem Bounded.card_liveAfter_le (bounded : tape.Bounded) (inside : index < tape.instructions.length) :
    (tape.liveAfter index).card ≤ tape.numSlots := by
  have held : tape.liveAfter index ⊆
      (Finset.range tape.numSlots).image (holder (tape.instructions.take (index + 1))) := by
    intro value live
    rcases bounded.exists_slot inside live with ⟨slot, slotInside, supplies⟩
    exact Finset.mem_image.mpr ⟨slot, Finset.mem_range.mpr slotInside,
      (supplies_iff_holder inside).mp supplies⟩
  calc (tape.liveAfter index).card
      ≤ ((Finset.range tape.numSlots).image (holder (tape.instructions.take (index + 1)))).card :=
        Finset.card_le_card held
    _ ≤ (Finset.range tape.numSlots).card := Finset.card_image_le
    _ = tape.numSlots := Finset.card_range _

/-! ## Tapes with the same data flow -/

/-- Both tapes compute the same values from the same values, and put the same ones out. Only their slots
differ. -/
structure SameFlow (first second : Tape) : Prop where
  numInputNonzeros_eq : first.numInputNonzeros = second.numInputNonzeros
  length_eq : first.instructions.length = second.instructions.length
  feeds : ∀ value target, Feeds first.instructions value target ↔ Feeds second.instructions value target
  yields : ∀ value, first.Yields value ↔ second.Yields value

theorem SameFlow.liveAfter_eq {first second : Tape} (same : first.SameFlow second) (index : Nat) :
    first.liveAfter index = second.liveAfter index := by
  ext value
  simp only [liveAfter, Finset.mem_filter, valuesBefore, UsedAfter, same.numInputNonzeros_eq, same.feeds,
    same.yields]

end Tape

/-! ## Linked tapes -/

theorem Linked.exists_links {firstSize secondSize : Nat} {before after : Link} {firsts seconds : List Instruction}
    (linked : Linked firstSize secondSize before firsts seconds after) :
    firsts.length = seconds.length ∧ ∃ links : Nat → Link, links 0 = before ∧ links firsts.length = after ∧
      ∀ index first second, firsts[index]? = some first → seconds[index]? = some second →
        Link.Step firstSize secondSize (links index) first second (links (index + 1)) := by
  induction linked with
  | nil link => exact ⟨rfl, fun _ => link, rfl, rfl, by simp⟩
  | @cons before between after first second firsts seconds step _ ih =>
      rcases ih with ⟨length, links, rfl, rfl, steps⟩
      refine ⟨congrArg (· + 1) length, fun time => Nat.casesOn time before links, rfl, rfl, ?_⟩
      intro index left right isLeft isRight
      rcases index with _ | index
      · cases isLeft
        cases isRight
        exact step
      · exact steps index left right isLeft isRight

theorem supplies_iff_of_links {firstSize secondSize : Nat} {firsts seconds : List Instruction} {links : Nat → Link}
    (length : firsts.length = seconds.length) (start : ∀ ⦃left right⦄, links 0 left right → left = right)
    (steps : ∀ index first second, firsts[index]? = some first → seconds[index]? = some second →
      Link.Step firstSize secondSize (links index) first second (links (index + 1)))
    {time left right : Nat} (inside : time ≤ firsts.length) (isLinked : links time left right) (value : Origin) :
    Supplies firsts left time value ↔ Supplies seconds right time value := by
  induction time generalizing left right with
  | zero => rw [supplies_zero, supplies_zero, start isLinked]
  | succ time ih =>
      have isFirst : firsts[time]? = some firsts[time] := List.getElem?_eq_getElem inside
      have isSecond : seconds[time]? = some seconds[time] := List.getElem?_eq_getElem (length ▸ inside)
      rw [supplies_succ isFirst, supplies_succ isSecond]
      rcases (steps time _ _ isFirst isSecond).kept isLinked with
        ⟨isOut, isOut'⟩ | ⟨wasLinked, notOut, notOut'⟩
      · rw [if_pos isOut, if_pos isOut']
      · rw [if_neg notOut, if_neg notOut']
        exact ih (by omega) wasLinked

theorem exists_mem_iff_of_forall₂ {α β : Type} {related : α → β → Prop} {lefts : List α} {rights : List β}
    {first : α → Prop} {second : β → Prop} (pairs : List.Forall₂ related lefts rights)
    (same : ∀ ⦃left right⦄, related left right → (first left ↔ second right)) :
    (∃ left ∈ lefts, first left) ↔ ∃ right ∈ rights, second right := by
  induction pairs with
  | nil => simp
  | cons head _ ih => simp only [List.exists_mem_cons_iff, same head, ih]

theorem Tape.LinkedBy.sameFlow {before after : Link} {first second : Tape}
    (linked : LinkedBy before after first second) : first.SameFlow second := by
  rcases linked.instructions.exists_links with ⟨length, links, rfl, rfl, steps⟩
  have supplies := @supplies_iff_of_links _ _ _ _ _ length
    (fun left right isLinked => (linked.before_eq isLinked).1) steps
  refine ⟨by rw [numInputNonzeros, numInputNonzeros, linked.inputs], length, ?_, ?_⟩
  · intro value target
    cases target with
    | start slot => constructor <;> rintro ⟨⟩
    | result index =>
        by_cases inside : index < first.instructions.length
        · have isFirst := List.getElem?_eq_getElem inside
          have isSecond := List.getElem?_eq_getElem (length ▸ inside)
          have operands := (steps index _ _ isFirst isSecond).operands
          simp only [feeds_result_iff, isFirst, isSecond, Option.some.injEq, exists_eq_left']
          exact exists_mem_iff_of_forall₂ operands fun left right isLinked =>
            supplies (by omega) isLinked value
        · have isNone := List.getElem?_eq_none (Nat.le_of_not_lt inside)
          have isNone' := List.getElem?_eq_none (length ▸ Nat.le_of_not_lt inside)
          simp [feeds_result_iff, isNone, isNone']
  · intro value
    refine exists_mem_iff_of_forall₂ linked.outputs fun left right slots => ?_
    refine exists_mem_iff_of_forall₂ slots fun slot partner isLinked => ?_
    rw [supplies (Nat.le_refl _) isLinked value, length]

end Autodiff
