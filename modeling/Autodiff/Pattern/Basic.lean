import Autodiff.Error
import Autodiff.Pattern.Buckets

/-!
# Sparsity patterns

A pattern records which positions of a matrix may be nonzero: one list of rows per column. The
stored positions are ordered column by column with rows ascending in a column, and this order
is how the values of every matrix are laid out. Positions that are not stored are zero for
every input.

The compressed form of a pattern, `columnPointers` and `rows`, is what documents hold;
`ofCompressed` reads it back and accepts exactly the well-formed ones.
-/

namespace Autodiff

def maxWord : Nat := 1 <<< 64 - 1

/-- The largest number of machine words that fit in one buffer. -/
def maxBuffer : Nat := 1 <<< 60 - 1

/-- Fails if a buffer of `count` words cannot exist. -/
def requireBuffer (count : Nat) : Except Error Unit :=
  if count ≤ maxBuffer then .ok () else .error (.violation .sizeOverflow)

/-- Fails if a number is not a machine word. -/
def requireWord (value : Nat) : Except Error Unit :=
  if value ≤ maxWord then .ok () else .error (.violation .sizeOverflow)

def total (numbers : List Nat) : Nat :=
  numbers.foldr (· + ·) 0

@[simp] theorem total_nil : total [] = 0 := rfl

@[simp] theorem total_cons (number : Nat) (numbers : List Nat) :
    total (number :: numbers) = number + total numbers := rfl

/-- The stored positions of a matrix: for each column its rows. -/
structure Pattern where
  nrow : Nat
  columns : List (List Nat)
deriving DecidableEq, Repr

namespace Pattern

/-- Rows of every column ascend strictly and lie inside the matrix. -/
def WellFormed (pattern : Pattern) : Prop :=
  ∀ column ∈ pattern.columns, column.Pairwise (· < ·) ∧ ∀ row ∈ column, row < pattern.nrow

instance (pattern : Pattern) : Decidable pattern.WellFormed := by
  unfold WellFormed
  infer_instance

def ncol (pattern : Pattern) : Nat :=
  pattern.columns.length

def shape (pattern : Pattern) : Nat × Nat :=
  (pattern.nrow, pattern.ncol)

def rows (pattern : Pattern) : List Nat :=
  pattern.columns.flatten

def nnz (pattern : Pattern) : Nat :=
  total (pattern.columns.map List.length)

/-- Running totals of the lengths of `columns`, starting from `start`. -/
def offsets (start : Nat) : List (List Nat) → List Nat
  | [] => [start]
  | column :: rest => start :: offsets (start + column.length) rest

/-- For each column the number of positions stored before it, and last the number of all. -/
def columnPointers (pattern : Pattern) : List Nat :=
  offsets 0 pattern.columns

def columnStart (pattern : Pattern) (column : Nat) : Nat :=
  total ((pattern.columns.take column).map List.length)

/-- The number of positions, stored or not; it has to be a machine word. -/
def numel (pattern : Pattern) : Except Error Nat := do
  requireWord (pattern.nrow * pattern.ncol)
  return pattern.nrow * pattern.ncol

def isScalar (pattern : Pattern) : Bool :=
  pattern.nrow == 1 && pattern.ncol == 1

def isDense (pattern : Pattern) : Except Error Bool := do
  return pattern.nnz == (← pattern.numel)

def isEmpty (pattern : Pattern) : Bool :=
  pattern.nnz == 0

/-- The stored positions `(row, column)` in storage order. -/
def positions (pattern : Pattern) : List (Nat × Nat) :=
  pattern.columns.zipIdx.flatMap fun (column, index) => column.map fun row => (row, index)

/-- Binary search among ascending rows: the place of a row that stands at or after `base`, less than
`1 <<< bits` places behind it. -/
def searchRow (rows : List Nat) (row : Nat) (bits base : Nat) : Option Nat :=
  match bits with
  | 0 => if rows[base]? = some row then some base else none
  | bits + 1 =>
    let middle := base + 1 <<< bits
    searchRow rows row bits (if rows[middle]?.any (· ≤ row) then middle else base)

/-- The storage index of a position, if it is stored. -/
def nonzero? (pattern : Pattern) (row column : Nat) : Option Nat :=
  match pattern.columns[column]? with
  | none => none
  | some rows =>
    (searchRow rows row (rows.length.log2 + 1) 0).map (pattern.columnStart column + ·)

def contains (pattern : Pattern) (row column : Nat) : Bool :=
  (pattern.nonzero? row column).isSome

def text (pattern : Pattern) : String :=
  s!"{pattern.nrow}x{pattern.ncol}, {pattern.nnz} nnz"

/-! ## Construction -/

def full (nrow ncol : Nat) : Pattern :=
  ⟨nrow, (List.range ncol).map fun _ => List.range nrow⟩

def blank (nrow ncol : Nat) : Pattern :=
  ⟨nrow, List.replicate ncol []⟩

def scalar : Pattern :=
  ⟨1, [[0]]⟩

/-- The full pattern, if the pointers and the rows of its compressed form fit in buffers. -/
def dense (nrow ncol : Nat) : Except Error Pattern := do
  requireBuffer (ncol + 1)
  requireBuffer (nrow * ncol)
  return full nrow ncol

def column (length : Nat) : Except Error Pattern :=
  dense length 1

/-- The pattern without stored positions, if its size is representable. -/
def empty (nrow ncol : Nat) : Except Error Pattern := do
  requireBuffer (ncol + 1)
  return blank nrow ncol

def diagonal (size : Nat) : Except Error Pattern := do
  requireBuffer (size + 1)
  return ⟨size, (List.range size).map fun index => [index]⟩

/-- The elements of a list in ascending order, each once. -/
def normalize (rows : List Nat) : List Nat :=
  (rows.mergeSort (· ≤ ·)).eraseReps

/-- The pattern with given rows per column, in any order and possibly repeated. -/
def ofColumns (nrow : Nat) (columns : List (List Nat)) : Pattern :=
  ⟨nrow, columns.map normalize⟩

/-- Order of positions `(row, column)` by column, then by row. -/
def precedes (left right : Nat × Nat) : Bool :=
  left.2 < right.2 || (left.2 == right.2 && left.1 ≤ right.1)

/-- The pattern that stores the given positions, in any order and possibly repeated. Of several
positions outside the matrix the first in storage order is reported. -/
def ofTriplets (nrow ncol : Nat) (entries : List (Nat × Nat)) : Except Error Pattern := do
  requireBuffer (ncol + 1)
  let outside := fun entry : Nat × Nat => nrow ≤ entry.1 || ncol ≤ entry.2
  let sorted := (entries.mergeSort precedes).eraseReps
  match sorted.find? outside with
  | some entry =>
    throw (.graph (.invalidPattern (.entryOutside entry.1 entry.2 nrow ncol)))
  | none =>
    return ⟨nrow, (buckets ncol Prod.snd sorted).map fun column => column.map Prod.fst⟩

def isAscending : List Nat → Bool
  | first :: second :: rest => first < second && isAscending (second :: rest)
  | _ => true

/-- Cuts `rows` into columns at the given pointers, checking each column in turn. -/
def cutColumns (nrow : Nat) (rows : List Nat) : Nat → List Nat → Except Error (List (List Nat))
  | index, start :: stop :: pointers => do
    if stop < start then
      throw (.graph (.invalidPattern (.pointerDecreases index)))
    if rows.length < stop then
      throw (.violation .rangeOutOfBounds)
    let column := (rows.drop start).take (stop - start)
    if !isAscending column then
      throw (.graph (.invalidPattern (.rowsUnordered index)))
    if column.getLast?.any (nrow ≤ ·) then
      throw (.graph (.invalidPattern (.rowOutOfRange index)))
    return column :: (← cutColumns nrow rows (index + 1) (stop :: pointers))
  | _, _ => return []

/-- The pattern with a given compressed form. -/
def ofCompressed (nrow ncol : Nat) (pointers rows : List Nat) : Except Error Pattern := do
  requireWord (ncol + 1)
  if pointers.length ≠ ncol + 1 then
    throw (.graph (.invalidPattern (.pointerCount pointers.length (ncol + 1))))
  if pointers.head? ≠ some 0 ∨ pointers.getLast? ≠ some rows.length then
    throw (.graph (.invalidPattern .pointerEnds))
  return ⟨nrow, ← cutColumns nrow rows 0 pointers⟩

/-! ## Values over a pattern -/

/-- The values of all positions of a column-major matrix whose stored values are given. -/
def densify {α : Type} (pattern : Pattern) (zero : α) (values : List α) :
    Except Error (List α) := do
  if values.length ≠ pattern.nnz then
    throw (.violation .lengthMismatch)
  requireBuffer (← pattern.numel)
  return (List.range pattern.ncol).flatMap fun column =>
    (List.range pattern.nrow).map fun row =>
      ((pattern.nonzero? row column).bind (values[·]?)).getD zero

end Pattern

end Autodiff
