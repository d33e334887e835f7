import Autodiff.Dependency.Jacobian
import Autodiff.Proofs.Tape.DataFlow
import Mathlib.Data.BitVec

/-!
# Masks follow the data flow

A mask stands for the set of its seeds, `maskSeeds`, and joining masks is the union of these sets. So the
sweeps over masks compute data flow: after the primal sweep a slot has the seeds of all slots that flow to
it, and after the adjoint sweep the seeds of all slots that it flows to.
-/

namespace Autodiff

/-! ## Seeds of a mask -/

theorem toBitVec_seedMask {number : Nat} (inside : number < maskWidth) :
    (seedMask number).toBitVec = BitVec.twoPow 64 number := by
  have small : number % 64 = number := Nat.mod_eq_of_lt inside
  simp [seedMask, BitVec.twoPow, UInt64.toBitVec_shiftLeft, small]

theorem mem_maskSeeds {mask : UInt64} {number : Nat} :
    number ∈ maskSeeds mask ↔ mask.toBitVec.getLsbD number = true := by
  have test : number < maskWidth → ((mask &&& seedMask number != 0) = true ↔
      mask.toBitVec.getLsbD number = true) := by
    intro inside
    have nonzero : BitVec.twoPow 64 number ≠ 0 := by
      intro isZero
      have bit := congrArg (BitVec.getLsbD · number) isZero
      simp [maskWidth] at bit inside
      omega
    rw [bne_iff_ne, Ne, ← UInt64.toBitVec_inj, UInt64.toBitVec_and, toBitVec_seedMask inside,
      BitVec.and_twoPow]
    split
    · simpa [*] using nonzero
    · simp [*]
  rw [maskSeeds, List.mem_filter, List.mem_range]
  constructor
  · rintro ⟨inside, isSet⟩
    exact (test inside).mp isSet
  · intro isSet
    have inside : number < maskWidth := BitVec.lt_of_getLsbD isSet
    exact ⟨inside, (test inside).mpr isSet⟩

@[simp] theorem not_mem_maskSeeds_zero {number : Nat} : number ∉ maskSeeds 0 := by
  simp [mem_maskSeeds]

@[simp] theorem mem_maskSeeds_or {left right : UInt64} {number : Nat} :
    number ∈ maskSeeds (left ||| right) ↔ number ∈ maskSeeds left ∨ number ∈ maskSeeds right := by
  simp [mem_maskSeeds]

theorem mem_maskSeeds_seedMask {number seed : Nat} (inside : seed < maskWidth) :
    number ∈ maskSeeds (seedMask seed) ↔ number = seed := by
  rw [mem_maskSeeds, toBitVec_seedMask inside, BitVec.getLsbD_twoPow]
  simp only [maskWidth] at inside
  simp [inside, eq_comm]

/-! ## The primal sweep -/

/-- Every operation joins the masks of its operands. -/
def maskMeaning : Meaning UInt64 where
  literal _ := 0
  unary _ mask := mask
  binary _ left right := left ||| right

theorem masks_evaluates : (masks : Algebra (Except Error) UInt64).Evaluates maskMeaning where
  constant _ := rfl
  unary _ _ := congrArg Except.ok UInt64.or_zero
  binary _ _ _ := rfl
  admissible _ _ _ _ := rfl

theorem inherits_maskSeeds (number : Nat) :
    maskMeaning.Inherits fun mask => number ∈ maskSeeds mask where
  literal _ := not_mem_maskSeeds_zero
  unary _ _ := .rfl
  binary _ _ _ := mem_maskSeeds_or

/-! ## The adjoint sweep -/

section Adjoint

variable {instructions : List Instruction} {value : Nat → UInt64} {number : Nat}

/-- Shares are joined, and scaling keeps the seeds that both masks have. -/
def maskArithmetic : Arithmetic UInt64 where
  zero := 0
  add left right := left ||| right
  mul left right := left &&& right
  isZero mask := mask == 0

theorem masks_computes : (masks : Algebra (Except Error) UInt64).Computes maskArithmetic where
  zero := rfl
  add _ _ := rfl
  mul _ _ := rfl
  isZero _ := rfl
  partials _ _ _ _ := ⟨_, rfl⟩

theorem mem_deposit_masks {entries : List (Nat × UInt64)} {slot : Nat} :
    number ∈ maskSeeds (maskArithmetic.deposit entries value slot) ↔
      number ∈ maskSeeds (value slot) ∨
        ∃ mask, (slot, mask) ∈ entries ∧ number ∈ maskSeeds mask := by
  induction entries generalizing value with
  | nil => simp [Arithmetic.deposit]
  | cons entry entries ih =>
      rcases entry with ⟨place, mask⟩
      refine ih.trans ?_
      by_cases same : slot = place
      · subst same
        simp [maskArithmetic, or_assoc, or_and_right, exists_or]
      · simp [same]

theorem mem_shares_masks {instruction : Instruction} {slot : Nat} {adjoint : UInt64} :
    (∃ mask, (slot, mask) ∈ maskArithmetic.shares instruction (maskWeights instruction) adjoint ∧
        number ∈ maskSeeds mask) ↔
      slot ∈ instruction.operands ∧ number ∈ maskSeeds adjoint := by
  have kept : ∀ share ∈ instruction.shares (maskWeights instruction),
      maskArithmetic.mul share.2 adjoint = adjoint := by
    rcases instruction with ⟨_ | op | op, out, fst, snd, literal⟩ <;>
      simp [Instruction.shares, maskWeights, maskArithmetic]
  rw [← instruction.map_fst_shares (maskWeights instruction), Arithmetic.shares]
  split
  · rename_i isZero
    rw [eq_of_beq isZero]
    simp
  · simp only [List.mem_map, Prod.mk.injEq]
    constructor
    · rintro ⟨_, ⟨share, isShare, isSlot, rfl⟩, seeded⟩
      rw [kept share isShare] at seeded
      exact ⟨⟨share, isShare, isSlot⟩, seeded⟩
    · rintro ⟨⟨share, isShare, isSlot⟩, seeded⟩
      exact ⟨adjoint, ⟨share, isShare, isSlot, kept share isShare⟩, seeded⟩

theorem mem_pull_masks {instruction : Instruction} {before : Nat} :
    number ∈ maskSeeds
        (maskArithmetic.pull instruction (maskWeights instruction) value before) ↔
      ∃ after, instruction.Passes before after ∧ number ∈ maskSeeds (value after) := by
  rw [Instruction.exists_passes_from, Arithmetic.pull, mem_deposit_masks, mem_shares_masks]
  apply or_congr_left
  by_cases isOut : before = instruction.out
  · simp [isOut, maskArithmetic]
  · simp [isOut]

/-- After the adjoint sweep a slot has the seeds of all slots that it flows to. -/
theorem mem_pullAll_masks {source : Nat} :
    number ∈ maskSeeds (maskArithmetic.pullAll (instructions.reverse.map fun instruction =>
        (instruction, maskWeights instruction)) value source) ↔
      ∃ target, Passes instructions source target ∧ number ∈ maskSeeds (value target) := by
  induction instructions generalizing source with
  | nil => simp [Arithmetic.pullAll, Passes]
  | cons instruction instructions ih =>
      simp only [Arithmetic.pullAll] at ih
      simp only [Arithmetic.pullAll, List.reverse_cons, List.map_append, List.foldl_append,
        List.map_cons, List.map_nil, List.foldl_cons, List.foldl_nil, mem_pull_masks, ih, Passes]
      constructor
      · rintro ⟨between, passes, target, flows, seeded⟩
        exact ⟨target, ⟨between, passes, flows⟩, seeded⟩
      · rintro ⟨target, ⟨between, passes, flows⟩, seeded⟩
        exact ⟨between, passes, target, flows, seeded⟩

end Adjoint

end Autodiff
