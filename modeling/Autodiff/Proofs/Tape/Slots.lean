import Autodiff.Proofs.Outcome
import Autodiff.Tape.Derivative
import Mathlib.Logic.Function.Basic

/-!
# Arrays of slots

A sweep reads and writes slots of an array. As long as it stays inside, the array is a function from
slots to elements that is cut off at its size, reading is application and writing is `Function.update`.
Proofs about sweeps then are equations between such arrays.
-/

namespace Autodiff

variable {m : Type → Type} [Monad m] [MonadExceptOf Error m] {α : Type}

theorem readSlot_eq_pure {array : Array α} {slot : Nat} {element : α}
    (found : array[slot]? = some element) : (readSlot array slot : m α) = pure element := by
  simp [readSlot, found]

theorem writeSlot_eq_pure {array : Array α} {slot : Nat} (element : α)
    (inside : slot < array.size) :
    (writeSlot array slot element : m (Array α)) = pure (array.setIfInBounds slot element) := by
  simp [writeSlot, inside]

def slotArray (size : Nat) (value : Nat → α) : Array α :=
  Array.ofFn fun slot : Fin size => value slot

variable {size slot : Nat} {value : Nat → α}

@[simp] theorem size_slotArray : (slotArray size value).size = size :=
  Array.size_ofFn

theorem getElem?_slotArray (inside : slot < size) :
    (slotArray size value)[slot]? = some (value slot) := by
  simp [slotArray, inside]

theorem eq_slotArray {array : Array α} (sized : array.size = size)
    (holds : ∀ slot < size, array[slot]? = some (value slot)) : array = slotArray size value := by
  refine Array.ext_getElem? fun slot => ?_
  by_cases inside : slot < size
  · rw [holds slot inside, getElem?_slotArray inside]
  · rw [Array.getElem?_eq_none (by omega),
      Array.getElem?_eq_none (by rw [size_slotArray]; omega)]

/-- Every array holds something in every slot; beyond its end an element can be chosen. -/
theorem slotArray_getD {array : Array α} (sized : array.size = size) (beyond : α) :
    slotArray size (fun slot => array[slot]?.getD beyond) = array :=
  (eq_slotArray sized fun slot inside => by simp [sized, inside]).symm

theorem replicate_eq_slotArray (size : Nat) (element : α) :
    Array.replicate size element = slotArray size fun _ => element :=
  eq_slotArray Array.size_replicate fun slot inside => by simp [inside]

@[simp] theorem readSlot_slotArray (inside : slot < size) :
    (readSlot (slotArray size value) slot : m α) = pure (value slot) :=
  readSlot_eq_pure (getElem?_slotArray inside)

theorem setIfInBounds_slotArray (inside : slot < size) (element : α) :
    (slotArray size value).setIfInBounds slot element = slotArray size (Function.update value slot element) := by
  refine eq_slotArray (by rw [Array.size_setIfInBounds, size_slotArray]) fun other otherInside => ?_
  by_cases same : slot = other
  · subst same
    rw [Array.getElem?_setIfInBounds_self_of_lt (by rw [size_slotArray]; exact inside),
      Function.update_self]
  · rw [Array.getElem?_setIfInBounds_ne same, Function.update_of_ne (Ne.symm same),
      getElem?_slotArray otherInside]

@[simp] theorem writeSlot_slotArray (inside : slot < size) (element : α) :
    (writeSlot (slotArray size value) slot element : m (Array α)) =
      pure (slotArray size (Function.update value slot element)) := by
  rw [writeSlot_eq_pure element (by rw [size_slotArray]; exact inside), setIfInBounds_slotArray inside]

/-- An instruction stays below a bound. -/
structure Instruction.Below (size : Nat) (instruction : Instruction) : Prop where
  out : instruction.out < size
  operands : ∀ operand ∈ instruction.operands, operand < size

namespace Instruction.Below

variable {instruction : Instruction}

theorem unary (below : instruction.Below size) {op : UnaryOp} (isUnary : instruction.op = .unary op) :
    instruction.fst < size :=
  below.operands _ (by simp [Instruction.operands, isUnary])

theorem binary (below : instruction.Below size) {op : BinaryOp} (isBinary : instruction.op = .binary op) :
    instruction.fst < size ∧ instruction.snd < size :=
  ⟨below.operands _ (by simp [Instruction.operands, isBinary]),
    below.operands _ (by simp [Instruction.operands, isBinary])⟩

end Instruction.Below

def SlotsBelow (size : Nat) (blocks : List Block) : Prop :=
  ∀ block ∈ blocks, ∀ slot ∈ block.slots, slot < size

theorem seedSlots_below {blocks : List Block} (below : SlotsBelow size blocks)
    (seed : Seed α) : ∀ entry ∈ seedSlots blocks seed, entry.1 < size := by
  intro entry member
  rw [seedSlots, List.mem_flatMap] at member
  rcases member with ⟨pair, pairMem, slotMem⟩
  exact below pair.1 (List.of_mem_zip pairMem).1 entry.1 (List.of_mem_zip slotMem).1

/-- What the slots hold after the entries of a seed were stored over one element everywhere. -/
def stored (rest : α) (blocks : List Block) (seed : Seed α) : Nat → α :=
  (seedSlots blocks seed).foldl (fun values entry => Function.update values entry.1 entry.2)
    fun _ => rest

theorem stored_map {β : Type} (function : α → β) (rest : α) (blocks : List Block) (seed : Seed α) :
    stored (function rest) blocks (seed.map (List.map function)) =
      fun slot => function (stored rest blocks seed slot) := by
  have slots : seedSlots blocks (seed.map (List.map function)) =
      (seedSlots blocks seed).map fun entry => (entry.1, function entry.2) := by
    simp only [seedSlots, List.zip_map_right, List.flatMap_map, List.map_flatMap, Prod.map_fst,
      Prod.map_snd, id_eq]
    rfl
  have folded : ∀ (entries : List (Nat × α)) (values : Nat → α),
      (entries.map fun entry => (entry.1, function entry.2)).foldl
          (fun values entry => Function.update values entry.1 entry.2) (fun slot => function (values slot)) =
        fun slot => function (entries.foldl
          (fun values entry => Function.update values entry.1 entry.2) values slot) := by
    intro entries
    induction entries with
    | nil => exact fun _ => rfl
    | cons entry entries ih =>
        intro values
        rw [List.map_cons, List.foldl_cons, List.foldl_cons, ← ih]
        exact congrArg (List.foldl _ · _) (Function.comp_update function values _ _).symm
  rw [stored, slots]
  exact folded _ _

theorem writeSlot_all [LawfulMonad m] {entries : List (Nat × α)}
    (inside : ∀ entry ∈ entries, entry.1 < size) :
    entries.foldlM (fun array entry => writeSlot array entry.1 entry.2) (slotArray size value) =
      (pure (slotArray size (entries.foldl (fun values entry =>
        Function.update values entry.1 entry.2) value)) : m (Array α)) := by
  induction entries generalizing value with
  | nil => rfl
  | cons entry entries ih =>
      rw [List.forall_mem_cons] at inside
      rw [List.foldlM_cons, writeSlot_slotArray inside.1, pure_bind, ih inside.2]
      rfl

theorem readBlocks_slotArray [LawfulMonad m] {blocks : List Block}
    (inside : SlotsBelow size blocks) :
    (readBlocks blocks (slotArray size value) : m (List (List α))) =
      pure (blocks.map fun block => block.slots.map value) := by
  have read : ∀ slots : List Nat, (∀ slot ∈ slots, slot < size) →
      (slots.mapM (readSlot (slotArray size value)) : m (List α)) = pure (slots.map value) := by
    intro slots slotsInside
    induction slots with
    | nil => simp
    | cons slot slots ih =>
        rw [List.forall_mem_cons] at slotsInside
        simp [slotsInside.1, ih slotsInside.2]
  rw [readBlocks]
  induction blocks with
  | nil => simp
  | cons block blocks ih =>
      rw [SlotsBelow, List.forall_mem_cons] at inside
      simp [read block.slots inside.1, ih inside.2]

end Autodiff
