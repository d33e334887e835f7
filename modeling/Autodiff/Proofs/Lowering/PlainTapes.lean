import Autodiff.Proofs.Graph.Reachable
import Autodiff.Proofs.Lowering.Accounting
import Autodiff.Proofs.Lowering.Valuation
import Autodiff.Proofs.Tape.Validity

/-!
# Tapes without slot reuse

In such a tape every value has a slot of its own. Whatever the opcodes mean, the slots of an output hold what the
emitted program computes for the stored entries of the output (`Graph.Compiles`), because dropping dead
instructions keeps the values of the outputs. So what is proved about emitted values holds of the tape.
-/

namespace Autodiff

variable {graph : Graph} {blocks : List Block} {K : Type}

namespace Emission

variable {meaning : Meaning K} {emission : Emission} {value : Nat → K}

/-- Every emitted value is its instruction applied to its operands. -/
def Satisfies (meaning : Meaning K) (emission : Emission) (value : Nat → K) : Prop :=
  ∀ instruction ∈ emission.instructions, value instruction.out = instruction.result meaning value

theorem Consistent.satisfies (consistent : emission.Consistent) (meaning : Meaning K)
    (value : Nat → K) :
    emission.Satisfies meaning (executeAll meaning emission.instructions.toList value) :=
  fun _ member => consistent.numbered.executeAll_out meaning value (Array.mem_toList_iff.mpr member)

theorem Satisfies.constant (satisfies : Satisfies meaning emission value) {literal : Float}
    {number : Nat} (isConstant : emission.IsConstant literal number) :
    value number = meaning.literal literal :=
  satisfies _ isConstant

theorem Satisfies.unary (satisfies : Satisfies meaning emission value) {op : UnaryOp}
    {operand unread number : Nat} (isResult : emission.IsResult (.unary op) operand unread number) :
    value number = meaning.unary op (value operand) := by
  rcases isResult with plain | ⟨commutative, _⟩
  · exact satisfies _ plain
  · cases commutative

/-- Operands may have been swapped, but only those of a commutative operation. -/
theorem Satisfies.binary (satisfies : Satisfies meaning emission value)
    (commutes : ∀ op : BinaryOp, op.isCommutative → ∀ left right,
      meaning.binary op left right = meaning.binary op right left) {op : BinaryOp}
    {first second number : Nat}
    (isResult : emission.IsResult (.binary op) first second number) :
    value number = meaning.binary op (value first) (value second) := by
  rcases isResult with plain | ⟨commutative, swapped⟩
  · exact satisfies _ plain
  · exact (satisfies _ swapped).trans (commutes op commutative ..)

end Emission

theorem Numbered.bounded {tape : Tape} {numInputs : Nat}
    (numbered : Numbered numInputs tape.instructions)
    (numSlots : tape.numSlots = numInputs + tape.instructions.length)
    (inputs : tape.inputs.flatMap Block.slots = List.range numInputs)
    (outputs : SlotsBelow tape.numSlots tape.outputs) : tape.Bounded where
  instructions := by
    intro instruction member
    rcases numbered.of_mem member with ⟨_, outBelow, operandsBelow⟩
    rw [numSlots]
    exact ⟨outBelow, fun operand isOperand =>
      Nat.lt_trans (operandsBelow operand isOperand) outBelow⟩
  inputs := by
    intro block blockMem slot slotMem
    have below : slot ∈ List.range numInputs :=
      inputs ▸ List.mem_flatMap.mpr ⟨block, blockMem, slotMem⟩
    rw [List.mem_range] at below
    omega
  outputs := outputs

namespace Graph

theorem DeclaredFrom.forall₂ {next : Nat} {inputs : List Handle} (declared : DeclaredFrom graph next inputs blocks) :
    List.Forall₂ (fun input block => graph.pattern input = .ok block.pattern ∧
      block.slots.length = block.pattern.nnz) inputs blocks := by
  induction declared with
  | nil next => exact .nil
  | cons name found isSymbol rest ih =>
      exact .cons ⟨pattern_eq_ok.mpr ⟨_, entry_eq_ok.mp found, rfl⟩, by simp⟩ ih

theorem outputBlocks_eq_ok {index : Nat} {outputs : List Handle} {slots : Handle → List Nat}
    (found : graph.outputBlocks index outputs (outputs.map slots) = .ok blocks) :
    List.Forall₂ (fun output block =>
      graph.pattern output = .ok block.pattern ∧ block.slots = slots output) outputs blocks := by
  induction outputs generalizing index blocks with
  | nil =>
      cases found
      exact .nil
  | cons output outputs ih =>
      rw [List.map_cons, outputBlocks] at found
      rcases bind_eq_ok.mp found with ⟨entry, isEntry, found⟩
      rcases bind_eq_ok.mp found with ⟨rest, restFound, returned⟩
      cases returned
      exact .cons ⟨pattern_eq_ok.mpr ⟨entry, entry_eq_ok.mp isEntry, rfl⟩, rfl⟩ (ih restFound)

theorem Emitted.kept_eq {inputs outputs : List Handle} {values kept : List (List Nat)} {emission : Emission}
    {program : List Instruction} {live : Nat → Bool} {number : Nat → Nat}
    (emitted : Emitted graph inputs outputs blocks values emission)
    (pruned : Pruned emission.numInputs emission.instructions.toList values program kept live number) :
    kept = outputs.map fun output => (emission.lowered output).toList.map number := by
  rw [pruned.outputs_eq, emitted.values_eq, List.map_map]
  rfl

theorem build_plain {share : Bool} {inputs outputs : List Handle} {tape : Tape}
    (built : graph.build ⟨false, share⟩ inputs outputs = .ok tape) :
    ∃ blocks values emission program kept live number outputBlocks,
      Emitted graph inputs outputs blocks values emission ∧
        (∀ output ∈ outputs, ∃ lowered, emission.Lowered output lowered) ∧
        Pruned emission.numInputs emission.instructions.toList values program kept live number ∧
        graph.outputBlocks 0 outputs kept = .ok outputBlocks ∧
        tape = ⟨program, emission.numInputs + program.length, blocks, outputBlocks⟩ := by
  rcases bind_eq_ok.mp built with ⟨⟨⟨blocks, values⟩, emission⟩, ran, built⟩
  rcases emitAll_emitted ran with ⟨emitted, order, ordered, lowered⟩
  rcases prune_pruned emitted.accounts.consistent.numbered emitted.outputs_lt with
    ⟨live, number, pruned⟩
  rcases bind_eq_ok.mp built with ⟨outputBlocks, found, returned⟩
  exact ⟨blocks, values, emission, _, _, live, number, outputBlocks, emitted,
    fun output member => lowered output ((postOrder_spec ordered).2 member), pruned, found,
    (Except.ok.inj returned).symm⟩

/-- A tape without slot reuse and the emission that it comes from. -/
structure Compiles (graph : Graph) (inputs outputs : List Handle) (emission : Emission)
    (tape : Tape) : Prop where
  emitted : ∃ values, Emitted graph inputs outputs tape.inputs values emission
  bounded : tape.Bounded
  outputs : List.Forall₂ (fun output block => graph.pattern output = .ok block.pattern ∧
    ∃ entries, emission.Lowered output entries ∧
      ∀ {K : Type} (meaning : Meaning K) (value : Nat → K),
        block.slots.map (executeAll meaning tape.instructions value) =
          entries.toList.map (executeAll meaning emission.instructions.toList value))
    outputs tape.outputs

theorem exists_compiles {share : Bool} {inputs outputs : List Handle} {tape : Tape}
    (built : graph.build ⟨false, share⟩ inputs outputs = .ok tape) :
    ∃ emission, Compiles graph inputs outputs emission tape := by
  rcases build_plain built with ⟨blocks, values, emission, program, kept, live, number,
    outputBlocks, emitted, lowered, pruned, blocksFound, rfl⟩
  obtain rfl := emitted.kept_eq pruned
  have renamed := outputBlocks_eq_ok blocksFound
  refine ⟨emission, ⟨values, emitted⟩, pruned.numbered.bounded rfl emitted.inputSlots ?_, ?_⟩
  · intro block blockMem
    rcases List.mem_iff_getElem?.mp blockMem with ⟨index, isBlock⟩
    rcases forall₂_getElem? renamed.flip isBlock with ⟨output, isOutput, _, slots⟩
    apply pruned.outputs_lt
    rw [slots]
    exact List.mem_map_of_mem (List.mem_of_getElem? isOutput)
  · refine forall₂_imp_of_mem renamed fun output block member ⟨isKnown, slots⟩ => ?_
    rcases lowered output member with ⟨entries, isLowered⟩
    have sameEntries := isLowered.lowered_eq
    rw [sameEntries] at slots
    refine ⟨isKnown, entries, isLowered, fun meaning value => ?_⟩
    rw [slots, List.map_map]
    apply List.map_congr_left
    intro old oldMem
    have isValues : entries.toList ∈ values := by
      rw [emitted.values_eq, ← sameEntries]
      exact List.mem_map_of_mem member
    exact pruned.executeAll_eq meaning emitted.accounts.consistent.numbered value
      (pruned.outputs_below _ isValues old oldMem) (pruned.outputs_live _ isValues old oldMem)

end Graph

end Autodiff
