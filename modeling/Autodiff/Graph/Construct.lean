import Autodiff.Graph.Basic
import Autodiff.Pattern.Combine
import Autodiff.Pattern.Rearrange

/-!
# Building expressions

The constructors of expressions. Each computes the pattern of its result from the patterns of
its operands and inserts the node. A handle that is not a node of the graph is reported as an
error by the constructors that can fail anyway; `unary` and `transpose` instead require a node.
-/

namespace Autodiff

/-- The shape of a binary operation's result; a 1x1 operand fits every shape. -/
def Pattern.commonShape? (left right : Pattern) : Option (Nat × Nat) :=
  if left.shape = right.shape then some left.shape
  else if left.isScalar then some right.shape
  else if right.isScalar then some left.shape
  else none

namespace Graph

def pattern (graph : Graph) (handle : Handle) : Except Error Pattern := do
  let entry ← graph.entry handle
  return entry.pattern

/-- The pattern of a node from the patterns of its operands. The pattern of a symbol is given and
cannot be derived. -/
def derive (graph : Graph) : Node → Except Error Pattern
  | .symbol _ => throw (.violation .entryOutOfRange)
  | .constant _ => return .scalar
  | .zeros nrow ncol => Pattern.empty nrow ncol
  | .unary op operand => do
    let pattern ← graph.pattern operand
    if op.preservesZero then return pattern else Pattern.dense pattern.nrow pattern.ncol
  | .binary op lhs rhs => do
    let left ← graph.pattern lhs
    let right ← graph.pattern rhs
    match left.commonShape? right with
    | none => throw (.graph (.shapeMismatch op left.shape right.shape))
    | some shape =>
      let left ← left.broadcast shape
      let right ← right.broadcast shape
      left.combine right op.zeroRule
  | .concat kind parts => do
    let patterns ← parts.mapM graph.pattern
    let combined ← Pattern.concat kind patterns
    return combined.1
  | .transpose operand => do
    let pattern ← graph.pattern operand
    let transposed ← pattern.transpose
    return transposed.1
  | .nonzero operand index => do
    let pattern ← graph.pattern operand
    if pattern.nnz ≤ index then
      throw (.graph (.nonzeroOutOfRange operand index pattern.nnz))
    return .scalar

end Graph

namespace GraphM

/-- The handle of a node, which is added with its pattern if the graph does not have it. -/
def add (node : Node) : GraphM Handle := do
  let pattern ← (← get).derive node
  modifyGet fun graph => graph.insert node pattern

def check (handle : Handle) : GraphM Unit := do
  (← get).check handle

def pattern (handle : Handle) : GraphM Pattern := do
  (← get).pattern handle

/-! ## Leaves -/

def symbol (name : String) (pattern : Pattern) : GraphM Handle :=
  modifyGet fun graph => graph.appendSymbol name pattern

def scalarSymbol (name : String) : GraphM Handle :=
  symbol name .scalar

def vectorSymbol (name : String) (length : Nat) : GraphM Handle := do
  symbol name (← Pattern.column length)

def matrixSymbol (name : String) (nrow ncol : Nat) : GraphM Handle := do
  symbol name (← Pattern.dense nrow ncol)

def constant (value : Float) : GraphM Handle :=
  add (.constant value)

def zeros (nrow ncol : Nat) : GraphM Handle :=
  add (.zeros nrow ncol)

/-! ## Scalar operations -/

def unary (op : Opcode) (operand : Handle) : GraphM Handle := do
  let .unary op := op
    | throw (.violation (.wrongArity op))
  add (.unary op operand)

/-- The operands of a commutative operation in ascending order, of others as they are. -/
def sortOperands (op : BinaryOp) (lhs rhs : Handle) : Handle × Handle :=
  if op.isCommutative && rhs.index < lhs.index then (rhs, lhs) else (lhs, rhs)

def binary (op : Opcode) (lhs rhs : Handle) : GraphM Handle := do
  let .binary op := op
    | throw (.violation (.wrongArity op))
  check lhs
  check rhs
  let (lhs, rhs) := sortOperands op lhs rhs
  add (.binary op lhs rhs)

/-- A binary operation on two operands that the caller promises to be 1x1. -/
def scalarBinary (op : BinaryOp) (lhs rhs : Handle) : GraphM Handle := do
  let left ← pattern lhs
  let right ← pattern rhs
  if !(left.isScalar && right.isScalar) then
    throw (.violation .notScalarOperand)
  let (lhs, rhs) := sortOperands op lhs rhs
  add (.binary op lhs rhs)

/-! ## Structural operations -/

/-- Matrices put together in a given direction. One part is returned as it is, and no part at
all gives the 0x0 matrix. -/
def concat (kind : ConcatKind) (parts : List Handle) : GraphM Handle := do
  parts.forM check
  match parts with
  | [] => zeros 0 0
  | [part] => return part
  | parts => add (.concat kind parts)

/-- The transpose. Transposing twice gives back the operand, and a 1x1 operand is its own
transpose. -/
def transpose (operand : Handle) : GraphM Handle := do
  let entry ← (← get).entry operand
  match entry.node with
  | .transpose inner => return inner
  | _ => if entry.pattern.isScalar then return operand else add (.transpose operand)

/-- One stored entry as a 1x1 expression. The only entry of a 1x1 operand is the operand. -/
def nonzero (operand : Handle) (index : Nat) : GraphM Handle := do
  check operand
  let pattern ← pattern operand
  if pattern.nnz = 1 && pattern.isScalar && index = 0 then return operand
  else add (.nonzero operand index)

def nonzeros (operand : Handle) : GraphM (List Handle) := do
  let pattern ← pattern operand
  (List.range pattern.nnz).mapM (nonzero operand)

/-- One position of an assembled matrix: the entry that the pattern stores there, or zero. -/
def assembleCell (pattern : Pattern) (entries : Array Handle) (row column : Nat) : GraphM Handle :=
  match pattern.nonzero? row column with
  | none => zeros 1 1
  | some index =>
    match entries[index]? with
    | some entry => return entry
    | none => throw (.violation .entryOutOfRange)

def assembleColumn (pattern : Pattern) (entries : Array Handle) (column : Nat) :
    GraphM Handle := do
  requireBuffer pattern.nrow
  let cells ← (List.range pattern.nrow).mapM fun row => assembleCell pattern entries row column
  if pattern.nrow = 0 then zeros 0 1 else concat .vertical cells

/-- The matrix with a given pattern and given 1x1 stored entries. It is put together from its
columns, so positions outside the pattern stay structurally zero. -/
def assemble (pattern : Pattern) (entries : List Handle) : GraphM Handle := do
  if entries.length ≠ pattern.nnz then
    throw (.graph (.invalidPattern (.entryCount entries.length pattern.nnz)))
  let columns ← (List.range pattern.ncol).mapM (assembleColumn pattern entries.toArray)
  if pattern.ncol = 0 then zeros pattern.nrow 0 else concat .horizontal columns

/-- Applies a unary operation, or a binary one with a fixed right operand, `count` times. -/
def iterate (op : Opcode) (rhs? : Option Handle) : Nat → Handle → GraphM Handle
  | 0, handle => return handle
  | count + 1, handle => do
    let next ← match rhs? with
      | none => unary op handle
      | some rhs => binary op handle rhs
    iterate op rhs? count next

end GraphM

end Autodiff
