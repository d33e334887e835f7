import Autodiff.Handle
import Autodiff.Opcode

/-!
# Nodes

A node is one operation on earlier nodes. Scalar operations act entry by entry; structural
operations only rearrange stored entries and compute nothing.
-/

namespace Autodiff

instance hashableFloat : Hashable Float where
  hash value := hash value.toBits

inductive Node where
  /-- A free variable, named by its index in the graph's symbol table. -/
  | symbol (index : Nat)
  | constant (value : Float)
  | zeros (nrow ncol : Nat)
  | unary (op : UnaryOp) (operand : Handle)
  /-- A binary operation on every pair of entries; a 1x1 operand is paired with all. -/
  | binary (op : BinaryOp) (lhs rhs : Handle)
  /-- Two or more matrices put together. -/
  | concat (kind : ConcatKind) (parts : List Handle)
  | transpose (operand : Handle)
  /-- One stored entry as a 1x1 matrix. -/
  | nonzero (operand : Handle) (index : Nat)
deriving DecidableEq, Hashable, Repr

namespace Node

def operands : Node → List Handle
  | .symbol _ | .constant _ | .zeros _ _ => []
  | .unary _ operand | .transpose operand | .nonzero operand _ => [operand]
  | .binary _ lhs rhs => [lhs, rhs]
  | .concat _ parts => parts

def isSymbol : Node → Bool
  | .symbol _ => true
  | _ => false

/-- Whether two nodes perform the same operation, whatever their operands. -/
def sameOperation : Node → Node → Bool
  | .symbol left, .symbol right => left == right
  | .constant left, .constant right => decide (left = right)
  | .zeros nrow ncol, .zeros nrow' ncol' => nrow == nrow' && ncol == ncol'
  | .unary left _, .unary right _ => decide (left = right)
  | .binary left _ _, .binary right _ _ => decide (left = right)
  | .concat left parts, .concat right parts' =>
    decide (left = right) && parts.length == parts'.length
  | .transpose _, .transpose _ => true
  | .nonzero _ left, .nonzero _ right => left == right
  | _, _ => false

end Node

end Autodiff
