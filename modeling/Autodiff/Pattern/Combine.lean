import Autodiff.Pattern.Basic

/-!
# Combining patterns entry by entry

The pattern of an elementwise operation follows from the patterns of its operands by the
operation's zero rule.
-/

namespace Autodiff.Pattern

/-- A row in front of later ones, if it is kept. -/
def keepRow (kept : Bool) (row : Nat) (rows : List Nat) : List Nat :=
  if kept then row :: rows else rows

/-- Goes on with the first row of the left list until it has been passed on the right. What comes then is
left to `next`. -/
def mergeFirst (single : Bool) (first : Nat) (next : List Nat → List Nat) : List Nat → List Nat
  | [] => keepRow single first (next [])
  | second :: right =>
    if first = second then first :: next right
    else if first < second then keepRow single first (next (second :: right))
    else keepRow single second (mergeFirst single first next right)

/-- Walks through two ascending lists of rows in step. A row of both is kept once, a row of one of
them only if `single` holds. -/
def mergeRows (single : Bool) : List Nat → List Nat → List Nat
  | [], right => if single then right else []
  | first :: left, right => mergeFirst single first (mergeRows single left) right

/-- Merges the columns of two patterns of equal shape. -/
def merge (single : Bool) (left right : Pattern) : Except Error Pattern :=
  if left.shape = right.shape then
    .ok ⟨left.nrow, List.zipWith (mergeRows single) left.columns right.columns⟩
  else
    .error (.violation .shapesDiffer)

def union (left right : Pattern) : Except Error Pattern :=
  merge true left right

def intersection (left right : Pattern) : Except Error Pattern :=
  merge false left right

/-- Positions that are stored on the left or absent on the right. -/
def orAbsent (left right : Pattern) : Except Error Pattern :=
  if left.shape = right.shape then
    .ok ⟨left.nrow, (List.range left.ncol).map fun column => (List.range left.nrow).filter fun row =>
      left.contains row column || !right.contains row column⟩
  else
    .error (.violation .shapesDiffer)

/-- The pattern of an elementwise operation on operands of equal shape. -/
def combine (left right : Pattern) : ZeroRule → Except Error Pattern
  | .union | .preserves => left.union right
  | .intersection => left.intersection right
  | .leftOperand => left.orAbsent right
  | .dense =>
    if left.shape = right.shape then dense left.nrow left.ncol
    else .error (.violation .shapesDiffer)

/-- The pattern of an operand seen at the shape of the result: a 1x1 operand covers every
position when it is stored and none otherwise. -/
def broadcast (pattern : Pattern) (shape : Nat × Nat) : Except Error Pattern :=
  if pattern.shape = shape then .ok pattern
  else if pattern.nnz = 1 then dense shape.1 shape.2
  else empty shape.1 shape.2

/-- The storage index of an operand at a position of the result; a 1x1 operand has the same one
everywhere. -/
def operandIndex? (pattern : Pattern) (row column : Nat) : Option Nat :=
  if pattern.isScalar then pattern.nonzero? 0 0 else pattern.nonzero? row column

end Autodiff.Pattern
