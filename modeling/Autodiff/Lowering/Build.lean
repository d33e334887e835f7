import Autodiff.Lowering.Emission
import Autodiff.Lowering.PostOrder
import Autodiff.Lowering.Slots

/-!
# Lowering

Outputs of a graph become a tape over declared symbols. The nodes that the outputs reach are
lowered in post-order, dead instructions are dropped and slots are assigned.
-/

namespace Autodiff

/-- Declares one symbol as the next input: its entries are the next values. -/
def Emission.declare (emission : Emission) (input : Handle) (count : Nat) :
    List Nat × Emission :=
  let values := (List.range count).map (emission.numInputs + ·)
  (values, { emission with
    numInputs := emission.numInputs + count
    values := emission.values.setIfInBounds input.index (some values.toArray) })

namespace Graph

/-- Declares the inputs one after the other. They have to be distinct symbols. -/
def declareInputs (graph : Graph) (seen : List Handle) : List Handle → EmitM (List Block)
  | [] => return []
  | input :: inputs => do
    graph.check input
    let entry ← graph.entry input
    if !entry.node.isSymbol then
      throw (.graph (.notSymbol input))
    if seen.contains input then
      throw (.graph (.duplicateInput input))
    let values ← modifyGet fun emission => emission.declare input entry.pattern.nnz
    let blocks ← declareInputs graph (input :: seen) inputs
    return ⟨(graph.symbolName? entry.node).getD "", entry.pattern, values⟩ :: blocks

/-- Declares the inputs, checks the outputs and emits all that they reach; returns the input
blocks and the values of the outputs. -/
def emitAll (graph : Graph) (share : Bool) (inputs outputs : List Handle) :
    EmitM (List Block × List (List Nat)) := do
  let blocks ← graph.declareInputs [] inputs
  (outputs.forM graph.check : Except Error PUnit)
  let order ← graph.postOrder outputs
  order.forM (EmitM.visit graph share)
  let emission ← get
  return (blocks, outputs.map fun output => (emission.lowered output).toList)

/-- The blocks of the outputs from number `index` on; an output that is a symbol keeps its
name. -/
def outputBlocks (graph : Graph) (index : Nat) :
    List Handle → List (List Nat) → Except Error (List Block)
  | output :: outputs, slots :: rest => do
    let entry ← graph.entry output
    let blocks ← graph.outputBlocks (index + 1) outputs rest
    return ⟨(graph.symbolName? entry.node).getD s!"o{index}", entry.pattern, slots⟩ :: blocks
  | _, _ => return []

/-- The tape with given input blocks whose outputs are slots of an allocation. -/
def tapeOf (graph : Graph) (blocks : List Block) (outputs : List Handle)
    (allocation : Allocation) : Except Error Tape := do
  let outputBlocks ← graph.outputBlocks 0 outputs allocation.outputs
  return ⟨allocation.instructions, allocation.numSlots, blocks, outputBlocks⟩

/-- The tape that computes `outputs` as functions of the symbols `inputs`. -/
def build (graph : Graph) (options : BuildOptions) (inputs outputs : List Handle) :
    Except Error Tape := do
  let ((blocks, values), emission) ← (graph.emitAll options.shareValues inputs outputs).run
    { values := Array.replicate graph.size none }
  let (instructions, values) := prune emission.numInputs emission.instructions.toList values
  graph.tapeOf blocks outputs
    (assignSlots options.reuseSlots emission.numInputs instructions values)

end Graph

end Autodiff
