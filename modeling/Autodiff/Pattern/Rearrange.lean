import Autodiff.Pattern.Basic

/-!
# Rearranging patterns

Transposition and concatenation. Each operation also says, for every stored position of the
result, which stored entry of its operands it came from.
-/

namespace Autodiff.Pattern

/-- The source of an entry of a concatenation: the part and the storage index in that part. -/
abbrev PartEntry := Nat × Nat

/-- The stored positions in storage order together with their storage indices. -/
def entries (pattern : Pattern) : List ((Nat × Nat) × Nat) :=
  pattern.positions.zipIdx

/-- For each row its entries in storage order. -/
def entriesByRow (pattern : Pattern) : List (List ((Nat × Nat) × Nat)) :=
  buckets pattern.nrow (fun entry => entry.1.1) pattern.entries

/-- The transposed pattern, and for each of its stored positions the storage index of its
source. -/
def transpose (pattern : Pattern) : Except Error (Pattern × List Nat) := do
  requireBuffer (pattern.nrow + 1)
  return (⟨pattern.ncol, pattern.entriesByRow.map fun row => row.map fun entry => entry.1.2⟩,
    pattern.entriesByRow.flatMap fun row => row.map Prod.snd)

/-- The columns of a part of a concatenation: each entry is a row, shifted by `shift`, with its
source. -/
def sourcedColumns (pattern : Pattern) (part shift : Nat) : List (List (Nat × PartEntry)) :=
  pattern.columns.zipIdx.map fun (column, index) =>
    let start := pattern.columnStart index
    column.zipIdx.map fun (row, offset) => (shift + row, (part, start + offset))

def ofSourced (nrow : Nat) (columns : List (List (Nat × PartEntry))) :
    Pattern × List PartEntry :=
  (⟨nrow, columns.map fun column => column.map Prod.fst⟩, columns.flatten.map Prod.snd)

/-- Each part with its position in the list and the rows of all parts before it. -/
def withShifts (parts : List Pattern) : List (Pattern × Nat × Nat) :=
  parts.zipIdx.map fun (part, index) =>
    (part, index, total ((parts.take index).map Pattern.nrow))

/-- Parts side by side; they have to share the number of rows. -/
def horzcat (parts : List Pattern) : Except Error (Pattern × List PartEntry) := do
  let nrow := (parts.head?.map Pattern.nrow).getD 0
  match parts.find? fun part => part.nrow ≠ nrow with
  | some part => throw (.graph (.concatMismatch .horizontal nrow part.nrow))
  | none =>
    return ofSourced nrow (parts.zipIdx.flatMap fun (part, index) => part.sourcedColumns index 0)

/-- Parts on top of each other; they have to share the number of columns. -/
def vertcat (parts : List Pattern) : Except Error (Pattern × List PartEntry) := do
  let ncol := (parts.head?.map Pattern.ncol).getD 0
  match parts.find? fun part => part.ncol ≠ ncol with
  | some part => throw (.graph (.concatMismatch .vertical ncol part.ncol))
  | none =>
    let nrow := total (parts.map Pattern.nrow)
    requireWord nrow
    let stacked := (withShifts parts).map fun (part, index, shift) =>
      part.sourcedColumns index shift
    return ofSourced nrow ((List.range ncol).map fun column =>
      stacked.flatMap fun columns => columns[column]?.getD [])

def diagcat (parts : List Pattern) : Except Error (Pattern × List PartEntry) := do
  let nrow := total (parts.map Pattern.nrow)
  requireWord nrow
  return ofSourced nrow ((withShifts parts).flatMap fun (part, index, shift) =>
    part.sourcedColumns index shift)

def concat (kind : ConcatKind) (parts : List Pattern) : Except Error (Pattern × List PartEntry) :=
  match kind with
  | .horizontal => horzcat parts
  | .vertical => vertcat parts
  | .diagonal => diagcat parts

end Autodiff.Pattern
