import Autodiff.Proofs.Dependency.Masks
import Autodiff.Proofs.Pattern.Representation
import Autodiff.Proofs.Tape.Validity
import Mathlib.Data.List.Permutation

/-!
# Propagation computes data flow

A batch seeds up to 64 slots, one bit each, and reads the pairs of seeds and entries that data flow connects. All
batches together find every pair, whatever the order in which they run, so each way to propagate gives the one
pattern that represents the data flow between two blocks.
-/

namespace Autodiff

/-- Data flows between a seeded slot and a slot that is read. -/
def Direction.Links (direction : Direction) (instructions : List Instruction) (seeded read : Nat) :
    Prop :=
  match direction with
  | .forward => Passes instructions seeded read
  | .adjoint => Passes instructions read seeded

def Direction.seeded (direction : Direction) (input output : Block) : Block :=
  match direction with
  | .forward => input
  | .adjoint => output

/-! ## Batches -/

theorem mem_batchSeeds {slots : List Nat} {batch slot : Nat} {mask : UInt64} :
    (slot, mask) ∈ batchSeeds slots batch ↔ ∃ number, number < maskWidth ∧
      slots[batch * maskWidth + number]? = some slot ∧ mask = seedMask number := by
  simp only [batchSeeds, List.mem_map, Prod.exists, List.mk_mem_zipIdx_iff_getElem?,
    List.getElem?_take, List.getElem?_drop, Prod.mk.injEq]
  constructor
  · rintro ⟨_, number, found, rfl, rfl⟩
    split at found
    · exact ⟨number, ‹_›, found, rfl⟩
    · cases found
  · rintro ⟨number, inside, found, rfl⟩
    exact ⟨slot, number, by rw [if_pos inside, found], rfl, rfl⟩

/-- The batches of all seeds are among those that run. -/
def Covers (seeds : Nat) (order : List Nat) : Prop :=
  ∀ seed < seeds, seed / maskWidth ∈ order

theorem covers_range (seeds : Nat) : Covers seeds (List.range (numBatches seeds)) := by
  intro seed inside
  simp only [List.mem_range, numBatches, maskWidth]
  omega

namespace Tape

variable {tape : Tape} {seeded read : List Nat}

theorem mem_batchPairs {batch : Nat} {found : List UInt64} {seed entry : Nat} :
    (seed, entry) ∈ batchPairs batch found ↔ ∃ mask number, found[entry]? = some mask ∧
      number ∈ maskSeeds mask ∧ seed = batch * maskWidth + number := by
  simp only [batchPairs, List.mem_flatMap, List.mem_map, Prod.exists,
    List.mk_mem_zipIdx_iff_getElem?, Prod.mk.injEq]
  constructor
  · rintro ⟨mask, _, isMask, number, isSeed, rfl, rfl⟩
    exact ⟨mask, number, isMask, isSeed, rfl⟩
  · rintro ⟨mask, number, isMask, isSeed, rfl⟩
    exact ⟨mask, entry, isMask, number, isSeed, rfl, rfl⟩

theorem exists_seedBatch (inside : ∀ slot ∈ seeded, slot < tape.numSlots) (batch : Nat) :
    ∃ value, tape.seedBatch seeded batch = .ok (slotArray tape.numSlots value) ∧
      ∀ number slot, number ∈ maskSeeds (value slot) ↔
        number < maskWidth ∧ seeded[batch * maskWidth + number]? = some slot := by
  have below : ∀ entry ∈ batchSeeds seeded batch, entry.1 < tape.numSlots := by
    rintro ⟨slot, mask⟩ member
    rcases mem_batchSeeds.mp member with ⟨number, _, found, _⟩
    exact inside slot (List.mem_of_getElem? found)
  refine ⟨maskArithmetic.deposit (batchSeeds seeded batch) fun _ => 0, ?_, ?_⟩
  · rw [seedBatch, replicate_eq_slotArray]
    exact masks_computes.accumulate_all below _
  · intro number slot
    simp only [mem_deposit_masks, not_mem_maskSeeds_zero, false_or, mem_batchSeeds]
    constructor
    · rintro ⟨_, ⟨seed, seedInside, found, rfl⟩, isSeed⟩
      cases (mem_maskSeeds_seedMask seedInside).mp isSeed
      exact ⟨seedInside, found⟩
    · rintro ⟨numberInside, found⟩
      exact ⟨_, ⟨number, numberInside, found, rfl⟩, (mem_maskSeeds_seedMask numberInside).mpr rfl⟩

section Below

variable (below : ∀ instruction ∈ tape.instructions, instruction.Below tape.numSlots)
include below

theorem exists_sweepMasks (direction : Direction) (value : Nat → UInt64) :
    ∃ final, tape.sweepMasks direction (slotArray tape.numSlots value) =
        .ok (slotArray tape.numSlots final) ∧
      ∀ number slot, number ∈ maskSeeds (final slot) ↔
        ∃ source, direction.Links tape.instructions source slot ∧
          number ∈ maskSeeds (value source) := by
  cases direction with
  | forward =>
      refine ⟨_, masks_evaluates.primal value below 0, ?_⟩
      intro number slot
      exact marked_executeAll (inherits_maskSeeds _)
  | adjoint =>
      have recordBelow : tape.maskRecord.Below tape.numSlots := by
        intro recorded member
        rcases List.mem_map.mp member with ⟨instruction, isInstruction, rfl⟩
        exact below instruction (List.mem_reverse.mp isInstruction)
      refine ⟨_, masks_computes.adjoint_eq recordBelow value, ?_⟩
      intro number slot
      exact mem_pullAll_masks

variable (seededInside : ∀ slot ∈ seeded, slot < tape.numSlots)
  (readInside : ∀ slot ∈ read, slot < tape.numSlots)
include seededInside readInside

theorem exists_propagateBatch (direction : Direction) (batch : Nat) :
    ∃ pairs, tape.propagateBatch direction seeded read batch = .ok pairs ∧
      ∀ seed entry, (seed, entry) ∈ pairs ↔ seed / maskWidth = batch ∧
        ∃ source target, seeded[seed]? = some source ∧ read[entry]? = some target ∧
          direction.Links tape.instructions source target := by
  rcases exists_seedBatch seededInside batch with ⟨value, isSeeded, seeds⟩
  rcases exists_sweepMasks below direction value with ⟨final, swept, flows⟩
  have found : read.mapM (readSlot (slotArray tape.numSlots final)) =
      (.ok (read.map final) : Except Error _) :=
    mapM_ok fun slot member => readSlot_slotArray (readInside slot member)
  refine ⟨batchPairs batch (read.map final), ?_, ?_⟩
  · simp only [propagateBatch, isSeeded, swept, found, ok_bind]
    rfl
  · intro seed entry
    simp only [mem_batchPairs, List.getElem?_map, Option.map_eq_some_iff]
    constructor
    · rintro ⟨_, number, ⟨target, isTarget, rfl⟩, isSeed, rfl⟩
      rcases (flows number target).mp isSeed with ⟨source, linked, isSeed⟩
      rcases (seeds number source).mp isSeed with ⟨inside, isSource⟩
      refine ⟨?_, source, target, isSource, isTarget, linked⟩
      simp only [maskWidth] at inside ⊢
      omega
    · rintro ⟨rfl, source, target, isSource, isTarget, linked⟩
      have whole : seed / maskWidth * maskWidth + seed % maskWidth = seed := Nat.div_add_mod' ..
      have isSeed : seed % maskWidth ∈ maskSeeds (value source) := by
        rw [seeds, whole]
        exact ⟨Nat.mod_lt _ (by decide), isSource⟩
      exact ⟨_, seed % maskWidth, ⟨target, isTarget, rfl⟩,
        (flows _ target).mpr ⟨source, linked, isSeed⟩, whole.symm⟩

/-- Batches that cover all seeds find all pairs, in whatever order they run. -/
theorem exists_batches (direction : Direction) {order : List Nat}
    (covers : Covers seeded.length order) :
    ∃ found, order.mapM (tape.propagateBatch direction seeded read) = .ok found ∧
      ∀ seed entry, (seed, entry) ∈ found.flatten ↔
        ∃ source target, seeded[seed]? = some source ∧ read[entry]? = some target ∧
          direction.Links tape.instructions source target := by
  choose pairs isFound members using exists_propagateBatch below seededInside readInside direction
  refine ⟨order.map pairs, mapM_ok fun batch _ => isFound batch, ?_⟩
  intro seed entry
  simp only [List.mem_flatten, List.mem_map, exists_exists_and_eq_and, members]
  constructor
  · rintro ⟨batch, _, _, linked⟩
    exact linked
  · rintro ⟨source, target, isSource, linked⟩
    have inside := (List.getElem?_eq_some_iff.mp isSource).1
    exact ⟨seed / maskWidth, covers seed inside, rfl, source, target, isSource, linked⟩

end Below

/-! ## Patterns -/

/-- Data flows from a stored entry of the input to a stored entry of the output. -/
def EntryFlows (tape : Tape) (input output : Block) (row column : Nat) : Prop :=
  ∃ source target, input.slots[column]? = some source ∧ output.slots[row]? = some target ∧
    FlowsTo tape.instructions source target

variable {input output : Block} {iind : Fin tape.inputs.length} {oind : Fin tape.outputs.length}
  {pattern : Pattern}

theorem jacobianPatternIn_eq_ok
    (propagated : ∀ direction order,
      Covers (direction.seeded (tape.inputs.get iind) (tape.outputs.get oind)).slots.length order →
      tape.patternFromBatches (tape.inputs.get iind) (tape.outputs.get oind) direction order =
        .ok pattern) (direction : Direction) :
    tape.jacobianPatternIn iind oind direction = .ok pattern := by
  simp only [jacobianPatternIn, block_input, block_output, ok_bind]
  apply propagated
  cases direction <;> exact covers_range _

theorem jacobianPattern_eq_ok
    (found : ∀ direction, tape.jacobianPatternIn iind oind direction = .ok pattern) :
    tape.jacobianPattern iind oind = .ok pattern := by
  simp only [jacobianPattern, preferredDirection, block_input, block_output, ok_bind]
  split
  · exact found .forward
  · exact found .adjoint

namespace Bounded

/-- Propagation in any direction and any order of batches finds the data flow between two blocks. -/
theorem exists_patternFromBatches (bounded : tape.Bounded) (isInput : input ∈ tape.inputs)
    (isOutput : output ∈ tape.outputs) (direction : Direction) {order : List Nat}
    (covers : Covers (direction.seeded input output).slots.length order) :
    ∃ pattern, tape.patternFromBatches input output direction order = .ok pattern ∧
      pattern.Represents (output.slots.length, input.slots.length)
        (tape.EntryFlows input output) := by
  have inputInside := bounded.inputs input isInput
  have outputInside := bounded.outputs output isOutput
  have fromPairs : ∀ pairs : List (Nat × Nat),
      (∀ row column, (row, column) ∈ pairs ↔ tape.EntryFlows input output row column) →
      (Pattern.ofColumns output.slots.length
        ((buckets input.slots.length Prod.snd pairs).map fun column =>
          column.map Prod.fst)).Represents (output.slots.length, input.slots.length)
        (tape.EntryFlows input output) := by
    intro pairs members
    refine (Pattern.represents_ofColumns ?_).congr members
    rintro ⟨row, column⟩ member
    rcases (members row column).mp member with ⟨_, _, isSource, isTarget, _⟩
    exact ⟨(List.getElem?_eq_some_iff.mp isTarget).1, (List.getElem?_eq_some_iff.mp isSource).1⟩
  cases direction with
  | forward =>
      rcases exists_batches bounded.instructions inputInside outputInside .forward covers with
        ⟨found, ran, members⟩
      refine ⟨_, by simp only [patternFromBatches, ran, ok_bind, pure_bind]; rfl,
        fromPairs _ fun row column => ?_⟩
      simp only [List.mem_map, Prod.exists, Prod.mk.injEq, members, EntryFlows, flowsTo_iff_passes]
      constructor
      · rintro ⟨_, _, linked, rfl, rfl⟩
        exact linked
      · intro linked
        exact ⟨column, row, linked, rfl, rfl⟩
  | adjoint =>
      rcases exists_batches bounded.instructions outputInside inputInside .adjoint covers with
        ⟨found, ran, members⟩
      refine ⟨_, by simp only [patternFromBatches, ran, ok_bind, pure_bind]; rfl,
        fromPairs _ fun row column => ?_⟩
      rw [members]
      simp only [EntryFlows, flowsTo_iff_passes]
      constructor
      · rintro ⟨target, source, isTarget, isSource, linked⟩
        exact ⟨source, target, isSource, isTarget, linked⟩
      · rintro ⟨source, target, isSource, isTarget, linked⟩
        exact ⟨target, source, isTarget, isSource, linked⟩

theorem exists_pattern (bounded : tape.Bounded) (isInput : input ∈ tape.inputs)
    (isOutput : output ∈ tape.outputs) :
    ∃ pattern : Pattern, pattern.Represents (output.slots.length, input.slots.length)
        (tape.EntryFlows input output) ∧
      ∀ direction order, Covers (direction.seeded input output).slots.length order →
        tape.patternFromBatches input output direction order = .ok pattern := by
  rcases bounded.exists_patternFromBatches isInput isOutput .forward (covers_range _) with
    ⟨pattern, _, represents⟩
  refine ⟨pattern, represents, ?_⟩
  intro direction order covers
  rcases bounded.exists_patternFromBatches isInput isOutput direction covers with
    ⟨other, found, otherRepresents⟩
  rw [found, otherRepresents.eq represents]

/-- The Jacobian pattern represents the data flow between its blocks. -/
theorem exists_jacobianPattern (bounded : tape.Bounded) (iind : Fin tape.inputs.length)
    (oind : Fin tape.outputs.length) :
    ∃ pattern, tape.jacobianPattern iind oind = .ok pattern ∧
      pattern.Represents
        ((tape.outputs.get oind).slots.length, (tape.inputs.get iind).slots.length)
        (tape.EntryFlows (tape.inputs.get iind) (tape.outputs.get oind)) := by
  rcases bounded.exists_pattern (List.get_mem tape.inputs iind) (List.get_mem tape.outputs oind)
    with ⟨pattern, represents, propagated⟩
  exact ⟨pattern, jacobianPattern_eq_ok (jacobianPatternIn_eq_ok propagated), represents⟩

end Bounded

/-- On every valid tape all propagations compute the same relation: in both directions, in the preferred
one, by the sequential and by the parallel strategy and for every order in which the batches run, the
result is the one well-formed pattern that stores the pairs of an output entry and an input entry with a
data-flow path from the input to the output. -/
theorem propagations_eq_dataFlow {tape : Tape} (validated : tape.validate = .ok ())
    (iind : Fin tape.inputs.length) (oind : Fin tape.outputs.length) :
    let input := tape.inputs.get iind
    let output := tape.outputs.get oind
    ∃ pattern : Pattern,
      pattern.Represents (output.slots.length, input.slots.length)
        (tape.EntryFlows input output) ∧
      tape.jacobianPattern iind oind = .ok pattern ∧
      ∀ direction : Direction,
        tape.jacobianPatternIn iind oind direction = .ok pattern ∧
        tape.jacobianPatternBy .sequential iind oind direction = .ok pattern ∧
        tape.jacobianPatternBy .parallel iind oind direction = .ok pattern ∧
        ∀ order : List Nat,
          order.Perm (List.range (numBatches (direction.seeded input output).slots.length)) →
            tape.patternFromBatches input output direction order = .ok pattern := by
  intro input output
  rcases (valid_of_validate validated).bounded.exists_pattern (List.get_mem tape.inputs iind)
    (List.get_mem tape.outputs oind) with ⟨pattern, represents, propagated⟩
  have found := jacobianPatternIn_eq_ok propagated
  refine ⟨pattern, represents, jacobianPattern_eq_ok found, ?_⟩
  intro direction
  refine ⟨found direction, found direction, found direction, ?_⟩
  intro order permuted
  apply propagated direction order
  intro seed inside
  exact permuted.mem_iff.mpr (covers_range _ seed inside)

end Tape

/-- A tape that overwrites one input with a constant and another one with a result that depends on it. -/
def rerouting : Tape :=
  ⟨[⟨.const, 0, unusedOperand, unusedOperand, 1⟩, ⟨.binary .mul, 3, 0, 1, 0⟩,
      ⟨.unary .sin, 1, 3, unusedOperand, 0⟩],
    4, [⟨"x", ⟨3, [[0, 1, 2]]⟩, [0, 1, 2]⟩], [⟨"y", ⟨4, [[0, 1, 2, 3]]⟩, [0, 1, 2, 3]⟩]⟩

theorem rerouting_validate : rerouting.validate = .ok () := by
  simp [rerouting, Tape.validate, Tape.checkInputs, Tape.checkSlotCount, Tape.checkInputSlots,
    Tape.checkInstructions, Tape.checkOutputs, Instruction.spareOperands, Instruction.operands,
    Pattern.nnz]

theorem rerouting_jacobianPattern :
    rerouting.jacobianPattern 0 0 = .ok ⟨4, [[], [1, 3], [2]]⟩ := by
  cbv

/-- On the rerouting tape nothing depends on the first input any more. -/
theorem rerouting_dataFlow : rerouting.validate = .ok () ∧
    (⟨4, [[], [1, 3], [2]]⟩ : Pattern).Represents (4, 3)
      (rerouting.EntryFlows (rerouting.inputs.get ⟨0, by decide⟩)
        (rerouting.outputs.get ⟨0, by decide⟩)) ∧
    ∀ direction, rerouting.jacobianPatternIn 0 0 direction = .ok ⟨4, [[], [1, 3], [2]]⟩ := by
  rcases Tape.propagations_eq_dataFlow rerouting_validate ⟨0, by decide⟩ ⟨0, by decide⟩ with
    ⟨pattern, represents, found, each⟩
  cases Except.ok.inj (found.symm.trans rerouting_jacobianPattern)
  exact ⟨rerouting_validate, represents, fun direction => (each direction).1⟩

end Autodiff
