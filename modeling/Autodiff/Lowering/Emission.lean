import Autodiff.Graph.Basic
import Autodiff.Pattern.Combine
import Autodiff.Pattern.Rearrange
import Autodiff.Tape.Basic

/-!
# Scalar emission

Every stored entry of every visited node becomes a value. Values are numbered: first the entries
of the inputs, then the results of the instructions in order. Structural nodes only route values and
emit nothing. Until slots are assigned, the operands and the result of an instruction are values.
-/

namespace Autodiff

structure Emission where
  numInputs : Nat := 0
  instructions : Array Instruction := #[]
  /-- For each node that is lowered the values of its stored entries. -/
  values : Array (Option (Array Nat)) := #[]
  /-- The value of each constant, by its bits. -/
  constants : Std.HashMap UInt64 Nat := ∅
  /-- The value of each operation on values. -/
  operations : Std.HashMap (Opcode × Nat × Nat) Nat := ∅

abbrev EmitM := StateT Emission (Except Error)

namespace Emission

def nextValue (emission : Emission) : Nat :=
  emission.numInputs + emission.instructions.size

def lowered (emission : Emission) (handle : Handle) : Array Nat :=
  (emission.values[handle.index]?.join).getD #[]

def constant (emission : Emission) (share : Bool) (value : Float) : Nat × Emission :=
  match if share then emission.constants[value.toBits]? else none with
  | some known => (known, emission)
  | none =>
    let result := emission.nextValue
    (result, { emission with
      instructions :=
        emission.instructions.push ⟨.const, result, unusedOperand, unusedOperand, value⟩
      constants := emission.constants.insert value.toBits result })

/-- Emits an operation on operands in their final order. -/
def sortedOperation (emission : Emission) (share : Bool) (op : Opcode) (first second : Nat) :
    Nat × Emission :=
  match if share then emission.operations[(op, first, second)]? else none with
  | some known => (known, emission)
  | none =>
    let result := emission.nextValue
    (result, { emission with
      instructions := emission.instructions.push ⟨op, result, first, second, 0⟩
      operations := emission.operations.insert (op, first, second) result })

/-- Emits an operation; the operands of a commutative one are sorted. -/
def operation (emission : Emission) (share : Bool) (op : Opcode) (first second : Nat) :
    Nat × Emission :=
  if op.isCommutative && second < first then emission.sortedOperation share op second first
  else emission.sortedOperation share op first second

end Emission

namespace EmitM

def stored (handle : Handle) (index : Nat) : EmitM Nat := do
  match ((← get).lowered handle)[index]? with
  | some value => return value
  | none => throw (.violation .entryOutOfRange)

/-- The value of an operand at a position of the result, and the constant zero where nothing is
stored. -/
def element (graph : Graph) (share : Bool) (operand : Handle) (row column : Nat) :
    EmitM Nat := do
  let entry ← graph.entry operand
  match entry.pattern.operandIndex? row column with
  | some index => stored operand index
  | none => modifyGet fun emission => emission.constant share 0

/-- Emits the entries of a node with a given pattern whose operands are lowered. -/
def lowerNode (graph : Graph) (share : Bool) (handle : Handle) (pattern : Pattern) :
    Node → EmitM (List Nat)
  | .symbol index =>
    throw (.graph (.freeSymbol handle ((graph.symbolName? (.symbol index)).getD "")))
  | .constant value => do
    let result ← modifyGet fun emission => emission.constant share value
    return [result]
  | .zeros _ _ => return []
  | .unary op operand =>
    pattern.positions.mapM fun position => do
      let value ← element graph share operand position.1 position.2
      modifyGet fun emission => emission.operation share (.unary op) value unusedOperand
  | .binary op lhs rhs =>
    pattern.positions.mapM fun position => do
      let first ← element graph share lhs position.1 position.2
      let second ← element graph share rhs position.1 position.2
      modifyGet fun emission => emission.operation share (.binary op) first second
  | .concat kind parts => do
    let entries ← (parts.mapM graph.entry : Except Error (List Entry))
    let sources ← Pattern.concat kind (entries.map Entry.pattern)
    sources.2.mapM fun source =>
      match parts[source.1]? with
      | some part => stored part source.2
      | none => throw (.violation .entryOutOfRange)
  | .transpose operand => do
    let entry ← graph.entry operand
    let sources ← entry.pattern.transpose
    sources.2.mapM (stored operand)
  | .nonzero operand index => do
    let value ← stored operand index
    return [value]

def lower (graph : Graph) (share : Bool) (handle : Handle) : EmitM (List Nat) := do
  let entry ← graph.entry handle
  lowerNode graph share handle entry.pattern entry.node

/-- Lowers a node unless it is an input or lowered already. -/
def visit (graph : Graph) (share : Bool) (handle : Handle) : EmitM Unit := do
  if ((← get).values[handle.index]?.join).isNone then
    let values ← lower graph share handle
    modify fun emission =>
      { emission with values := emission.values.setIfInBounds handle.index (some values.toArray) }

end EmitM

end Autodiff
