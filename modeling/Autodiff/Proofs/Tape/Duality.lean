import Autodiff.Proofs.Tape.Slots
import Mathlib.Algebra.BigOperators.Pi
import Mathlib.Algebra.BigOperators.Ring.Finset
import Mathlib.Algebra.BigOperators.Ring.List
import Mathlib.Tactic.Ring

/-!
# Tangents and adjoints are dual

Over a commutative semiring, an instruction acts linearly on tangents and on adjoints. The two actions
are transposes of each other, and this is stated without matrices: with the pairing of two arrays of
slots, pushing the first forward is the same as pulling the second back. The identity for one
instruction (`pairing_pushed`) covers overwritten slots and repeated operands; along a record it holds by
induction.
-/

namespace Autodiff

variable {α : Type} [CommSemiring α]

/-! ## The linear actions -/

/-- Elements added up in their slots. -/
def spread (entries : List (Nat × α)) : Nat → α :=
  (entries.map fun entry => Pi.single entry.1 entry.2).sum

@[simp] theorem spread_nil : spread ([] : List (Nat × α)) = 0 := rfl

@[simp] theorem spread_cons (entry : Nat × α) (entries : List (Nat × α)) :
    spread (entry :: entries) = Pi.single entry.1 entry.2 + spread entries :=
  List.sum_cons

namespace Instruction

/-- The operand slots that are read, each with its partial. -/
def shares (instruction : Instruction) (weights : α × α) : List (Nat × α) :=
  match instruction.op with
  | .const => []
  | .unary _ => [(instruction.fst, weights.1)]
  | .binary _ => [(instruction.fst, weights.1), (instruction.snd, weights.2)]

def pushed (instruction : Instruction) (weights : α × α) (tangents : Nat → α) : Nat → α :=
  Function.update tangents instruction.out
    ((instruction.shares weights).map fun share => share.2 * tangents share.1).sum

def pulled (instruction : Instruction) (weights : α × α) (adjoints : Nat → α) : Nat → α :=
  Function.update adjoints instruction.out 0 +
    spread ((instruction.shares weights).map fun share =>
      (share.1, share.2 * adjoints instruction.out))

omit [CommSemiring α] in
theorem map_fst_shares (instruction : Instruction) (weights : α × α) :
    (instruction.shares weights).map Prod.fst = instruction.operands := by
  rcases instruction with ⟨_ | op | op, out, fst, snd, literal⟩ <;> rfl

omit [CommSemiring α] in
theorem shares_below {size : Nat} {instruction : Instruction} (below : instruction.Below size)
    (weights : α × α) : ∀ share ∈ instruction.shares weights, share.1 < size := by
  intro share member
  refine below.operands share.1 ?_
  rw [← instruction.map_fst_shares weights]
  exact List.mem_map_of_mem member

end Instruction

def Record.pushed (record : Record α) (tangents : Nat → α) : Nat → α :=
  record.foldr (fun recorded tangents => recorded.1.pushed recorded.2 tangents) tangents

def Record.pulled (record : Record α) (adjoints : Nat → α) : Nat → α :=
  record.foldl (fun adjoints recorded => recorded.1.pulled recorded.2 adjoints) adjoints

/-! ## Duality -/

/-- The sum over all slots of the product of two elements. -/
def pairing (size : Nat) (tangents adjoints : Nat → α) : α :=
  ∑ slot ∈ Finset.range size, tangents slot * adjoints slot

section Pairing

variable {size slot : Nat} (tangents adjoints : Nat → α)

theorem pairing_zero : pairing size tangents 0 = 0 := by
  simp [pairing]

theorem pairing_comm : pairing size tangents adjoints = pairing size adjoints tangents := by
  simp only [pairing, mul_comm]

theorem pairing_add (more : Nat → α) :
    pairing size tangents (adjoints + more) =
      pairing size tangents adjoints + pairing size tangents more := by
  simp [pairing, mul_add, Finset.sum_add_distrib]

theorem pairing_single (inside : slot < size) (element : α) :
    pairing size tangents (Pi.single slot element) = tangents slot * element := by
  simp [pairing, Pi.single_apply, inside]

theorem pairing_slot (inside : slot < size) :
    pairing size tangents (Pi.single slot 1) = tangents slot := by
  rw [pairing_single _ inside, mul_one]

/-- A slot that is overwritten on one side counts as zero on the other, apart from what is written. -/
theorem update_pairing (inside : slot < size) (element : α) :
    pairing size (Function.update tangents slot element) adjoints =
      pairing size tangents (Function.update adjoints slot 0) + element * adjoints slot := by
  have member : slot ∈ Finset.range size := Finset.mem_range.mpr inside
  have others : ∑ other ∈ (Finset.range size).erase slot,
      Function.update tangents slot element other * adjoints other =
      ∑ other ∈ (Finset.range size).erase slot,
        tangents other * Function.update adjoints slot 0 other := by
    refine Finset.sum_congr rfl fun other otherMem => ?_
    have different := Finset.ne_of_mem_erase otherMem
    rw [Function.update_of_ne different, Function.update_of_ne different]
  rw [pairing, pairing, ← Finset.sum_erase_add _ _ member, others,
    ← Finset.sum_erase_add _ _ member]
  simp

theorem pairing_spread {entries : List (Nat × α)} (inside : ∀ entry ∈ entries, entry.1 < size) :
    pairing size tangents (spread entries) =
      (entries.map fun entry => tangents entry.1 * entry.2).sum := by
  induction entries with
  | nil => exact pairing_zero tangents
  | cons entry entries ih =>
      rw [List.forall_mem_cons] at inside
      rw [spread_cons, pairing_add, pairing_single tangents inside.1, ih inside.2, List.map_cons,
        List.sum_cons]

end Pairing

/-- One instruction: pushing tangents forward is dual to pulling adjoints back. -/
theorem pairing_pushed {size : Nat} {instruction : Instruction} (below : instruction.Below size)
    (weights : α × α) (tangents adjoints : Nat → α) :
    pairing size (instruction.pushed weights tangents) adjoints =
      pairing size tangents (instruction.pulled weights adjoints) := by
  have inside : ∀ entry ∈ (instruction.shares weights).map fun share =>
      (share.1, share.2 * adjoints instruction.out), entry.1 < size := by
    rw [List.forall_mem_map]
    exact Instruction.shares_below below weights
  rw [Instruction.pushed, Instruction.pulled, update_pairing _ _ below.out, pairing_add,
    pairing_spread _ inside, List.map_map, ← List.sum_map_mul_right]
  congr 2
  refine List.map_congr_left fun share _ => ?_
  rw [Function.comp_apply]
  ring

def Record.Below (size : Nat) (record : Record α) : Prop :=
  ∀ recorded ∈ record, recorded.1.Below size

theorem Record.pairing_pushed {size : Nat} {record : Record α} (below : record.Below size)
    (tangents adjoints : Nat → α) :
    pairing size (record.pushed tangents) adjoints =
      pairing size tangents (record.pulled adjoints) := by
  induction record generalizing adjoints with
  | nil => rfl
  | cons recorded record ih =>
      rw [Record.Below, List.forall_mem_cons] at below
      exact (Autodiff.pairing_pushed below.1 recorded.2 _ _).trans (ih below.2 _)

end Autodiff
