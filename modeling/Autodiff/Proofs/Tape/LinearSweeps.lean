import Autodiff.Proofs.Tape.PureSweeps

/-!
# Derivative sweeps are linear

The derivative sweeps skip work where an element is known to be zero. Over a commutative semiring in
which exactly zero is known to be zero (`Algebra.Exact`), skipping changes nothing: pushing tangents over an
instruction and pulling adjoints back are its linear actions, and a seed starts from the sum of its entries.
-/

namespace Autodiff

variable {α : Type} [CommSemiring α]

/-- Elements that form a commutative semiring in which exactly zero is known to be zero. What the
operations and their partials are is left open. -/
structure Algebra.Exact (algebra : Algebra (Except Error) α) : Prop where
  zero : algebra.zero = 0
  add : ∀ left right, algebra.add left right = .ok (left + right)
  mul : ∀ left right, algebra.mul left right = .ok (left * right)
  isZero : ∀ element, ∃ flag, algebra.isZero element = .ok flag ∧ (flag = true ↔ element = 0)
  partials : ∀ op first second result,
    ∃ weights, algebra.partials op first second result = .ok weights

open Classical in
/-- The operations of a semiring, with exactly zero known to be zero. -/
noncomputable def Arithmetic.linear (α : Type) [CommSemiring α] : Arithmetic α where
  zero := 0
  add left right := left + right
  mul left right := left * right
  isZero element := decide (element = 0)

theorem Algebra.Exact.computes {algebra : Algebra (Except Error) α} (exact : algebra.Exact) :
    algebra.Computes (.linear α) where
  zero := exact.zero
  add := exact.add
  mul := exact.mul
  isZero element := by
    rcases exact.isZero element with ⟨flag, known, isZero⟩
    have same : flag = (Arithmetic.linear α).isZero element :=
      Bool.eq_iff_iff.mpr (isZero.trans (by simp [Arithmetic.linear]))
    rw [known, same]
  partials := exact.partials

namespace Arithmetic

variable (weights : α × α) (values : Nat → α)

/-! ## Instructions -/

theorem share_linear (weight tangent : α) : (linear α).share weight tangent = weight * tangent := by
  rw [share]
  split
  · rename_i isZero
    have tangentZero : tangent = 0 := by simpa [linear] using isZero
    simp [tangentZero, linear]
  · rfl

theorem tangent_linear (instruction : Instruction) :
    (linear α).tangent instruction weights values =
      ((instruction.shares weights).map fun share => share.2 * values share.1).sum := by
  rcases instruction with ⟨_ | op | op, out, fst, snd, literal⟩
  · simp [tangent, Instruction.shares, linear]
  · simp [tangent, Instruction.shares, share_linear]
  · simp only [tangent, Instruction.shares, share_linear]
    split
    · rename_i isZero
      have sndZero : values snd = 0 := by simpa [linear] using isZero
      simp [sndZero]
    · simp [linear]

theorem push_linear (instruction : Instruction) :
    (linear α).push instruction weights values = instruction.pushed weights values := by
  rw [push, tangent_linear, Instruction.pushed]

theorem deposit_linear (entries : List (Nat × α)) :
    (linear α).deposit entries values = values + spread entries := by
  induction entries generalizing values with
  | nil => simp [deposit]
  | cons entry entries ih =>
      refine (ih _).trans ?_
      rw [spread_cons, ← add_assoc]
      congr 1
      funext slot
      by_cases same : slot = entry.1
      · subst same
        simp [linear]
      · simp [same]

theorem spread_mul_zero (shares : List (Nat × α)) :
    spread (shares.map fun share => (share.1, share.2 * 0)) = 0 := by
  induction shares with
  | nil => rfl
  | cons share shares ih => simpa using ih

theorem pull_linear (instruction : Instruction) :
    (linear α).pull instruction weights values = instruction.pulled weights values := by
  rw [pull, deposit_linear, shares, Instruction.pulled]
  congr 1
  split
  · rename_i isZero
    have outZero : values instruction.out = 0 := by simpa [linear] using isZero
    rw [outZero, spread_mul_zero, spread_nil]
  · rfl

/-! ## Records -/

theorem pushAll_linear (record : Record α) :
    (linear α).pushAll record values = record.pushed values := by
  simp only [pushAll, Record.pushed, push_linear]

theorem pullAll_linear (record : Record α) :
    (linear α).pullAll record values = record.pulled values := by
  simp only [pullAll, Record.pulled, pull_linear]

/-! ## Seeds -/

theorem adjointsOf_linear (blocks : List Block) (seed : Seed α) :
    (linear α).adjointsOf blocks seed = spread (seedSlots blocks seed) := by
  rw [adjointsOf, deposit_linear]
  exact zero_add _

/-- Storing in distinct slots that hold zero is adding. -/
theorem update_all {entries : List (Nat × α)} (distinct : (entries.map Prod.fst).Nodup)
    {tangents : Nat → α} (isZero : ∀ entry ∈ entries, tangents entry.1 = 0) :
    entries.foldl (fun values entry => Function.update values entry.1 entry.2) tangents =
      tangents + spread entries := by
  induction entries generalizing tangents with
  | nil => simp
  | cons entry entries ih =>
      rw [List.forall_mem_cons] at isZero
      rw [List.map_cons, List.nodup_cons] at distinct
      have added : Function.update tangents entry.1 entry.2 =
          tangents + Pi.single entry.1 entry.2 := by
        funext slot
        by_cases same : slot = entry.1
        · subst same
          simp [isZero.1]
        · simp [same]
      have zeroAfter : ∀ later ∈ entries,
          (tangents + Pi.single entry.1 entry.2 : Nat → α) later.1 = 0 := by
        intro later member
        have different : later.1 ≠ entry.1 := fun same =>
          distinct.1 (same ▸ List.mem_map_of_mem member)
        rw [Pi.add_apply, isZero.2 later member, Pi.single_eq_of_ne different, add_zero]
      rw [List.foldl_cons, added, ih distinct.2 zeroAfter, spread_cons, add_assoc]

theorem stored_zero {blocks : List Block} {seed : Seed α}
    (distinct : ((seedSlots blocks seed).map Prod.fst).Nodup) :
    stored 0 blocks seed = spread (seedSlots blocks seed) := by
  rw [stored, update_all distinct fun _ _ => rfl]
  exact zero_add _

end Arithmetic

end Autodiff
