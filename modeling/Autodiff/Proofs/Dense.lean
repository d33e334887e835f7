import Autodiff.Proofs.Pattern.Rearrangement
import Mathlib.LinearAlgebra.Matrix.Defs

/-!
# Dense matrices

Matrices of any shape, as the meaning of expressions. Elementwise operations repeat a 1x1 matrix at every
position, and matrices are put together as blocks. The entry at a position is read with `get`, which
is zero outside the matrix, so that two matrices of one shape are equal if all their entries are.

A list of stored entries becomes a dense matrix when it is scattered over a pattern; `Represents` says
that it becomes a given one.
-/

namespace Autodiff

/-- A matrix together with its shape. -/
structure Dense (K : Type) where
  nrow : Nat
  ncol : Nat
  entries : Matrix (Fin nrow) (Fin ncol) K

namespace Dense

variable {K : Type}

def shape (matrix : Dense K) : Nat × Nat :=
  (matrix.nrow, matrix.ncol)

def isScalar (matrix : Dense K) : Bool :=
  matrix.nrow == 1 && matrix.ncol == 1

def ofFn (nrow ncol : Nat) (entry : Nat → Nat → K) : Dense K :=
  ⟨nrow, ncol, .of fun row column => entry row column⟩

def scalar (value : K) : Dense K :=
  ofFn 1 1 fun _ _ => value

def map (function : K → K) (matrix : Dense K) : Dense K :=
  ⟨matrix.nrow, matrix.ncol, matrix.entries.map function⟩

def transpose (matrix : Dense K) : Dense K :=
  ⟨matrix.ncol, matrix.nrow, matrix.entries.transpose⟩

variable [Zero K]

def zeros (nrow ncol : Nat) : Dense K :=
  ⟨nrow, ncol, 0⟩

/-- The entry at a position, zero outside the matrix. -/
def get (matrix : Dense K) (row column : Nat) : K :=
  if inside : row < matrix.nrow ∧ column < matrix.ncol then
    matrix.entries ⟨row, inside.1⟩ ⟨column, inside.2⟩
  else 0

/-- The entry at a position of a larger matrix; a 1x1 matrix is repeated everywhere. -/
def spread (matrix : Dense K) (row column : Nat) : K :=
  if matrix.isScalar then matrix.get 0 0 else matrix.get row column

/-- A function applied to every pair of entries; a 1x1 matrix is repeated at every position of the
other one. -/
def zipWith (function : K → K → K) (left right : Dense K) : Dense K :=
  let shape := if left.isScalar then right.shape else left.shape
  ofFn shape.1 shape.2 fun row column =>
    function (left.spread row column) (right.spread row column)

/-- Two blocks side by side, on top of each other or on the diagonal of a matrix that is zero
elsewhere. -/
def join (kind : ConcatKind) (first second : Dense K) : Dense K :=
  match kind with
  | .horizontal => ofFn first.nrow (first.ncol + second.ncol) fun row column =>
      if column < first.ncol then first.get row column
      else second.get row (column - first.ncol)
  | .vertical => ofFn (first.nrow + second.nrow) first.ncol fun row column =>
      if row < first.nrow then first.get row column
      else second.get (row - first.nrow) column
  | .diagonal => ofFn (first.nrow + second.nrow) (first.ncol + second.ncol) fun row column =>
      if row < first.nrow ∧ column < first.ncol then first.get row column
      else if first.nrow ≤ row ∧ first.ncol ≤ column then
        second.get (row - first.nrow) (column - first.ncol)
      else 0

def concat (kind : ConcatKind) (parts : List (Dense K)) : Dense K :=
  parts.foldr (join kind) (zeros 0 0)

/-! ## Entries -/

theorem get_of_inside (matrix : Dense K) {row column : Nat} (rowInside : row < matrix.nrow)
    (columnInside : column < matrix.ncol) :
    matrix.get row column = matrix.entries ⟨row, rowInside⟩ ⟨column, columnInside⟩ :=
  dif_pos ⟨rowInside, columnInside⟩

theorem get_of_not_inside {matrix : Dense K} {row column : Nat}
    (outside : ¬(row < matrix.nrow ∧ column < matrix.ncol)) : matrix.get row column = 0 :=
  dif_neg outside

theorem ext_get {left right : Dense K} (sameRows : left.nrow = right.nrow)
    (sameColumns : left.ncol = right.ncol)
    (same : ∀ row column, row < left.nrow → column < left.ncol →
      left.get row column = right.get row column) : left = right := by
  rcases left with ⟨nrow, ncol, entries⟩
  rcases right with ⟨_, _, entries'⟩
  simp only at sameRows sameColumns
  subst sameRows sameColumns
  congr
  ext row column
  have equal := same row column row.isLt column.isLt
  simpa only [get, row.isLt, column.isLt, and_self, dif_pos] using equal

theorem get_ofFn {nrow ncol row column : Nat} {entry : Nat → Nat → K} (rowInside : row < nrow)
    (columnInside : column < ncol) : (ofFn nrow ncol entry).get row column = entry row column :=
  (ofFn nrow ncol entry).get_of_inside rowInside columnInside

theorem get_map {matrix : Dense K} {function : K → K} {row column : Nat}
    (rowInside : row < matrix.nrow) (columnInside : column < matrix.ncol) :
    (matrix.map function).get row column = function (matrix.get row column) := by
  rw [matrix.get_of_inside rowInside columnInside]
  exact (matrix.map function).get_of_inside rowInside columnInside

theorem get_zipWith {left right : Dense K} {function : K → K → K} {row column : Nat}
    (rowInside : row < (zipWith function left right).nrow)
    (columnInside : column < (zipWith function left right).ncol) :
    (zipWith function left right).get row column =
      function (left.spread row column) (right.spread row column) :=
  get_ofFn rowInside columnInside

theorem get_transpose (matrix : Dense K) (row column : Nat) :
    matrix.transpose.get row column = matrix.get column row := by
  by_cases inside : column < matrix.nrow ∧ row < matrix.ncol
  · have mirrored : row < matrix.transpose.nrow ∧ column < matrix.transpose.ncol := inside.symm
    exact (matrix.transpose.get_of_inside mirrored.1 mirrored.2).trans
      (matrix.get_of_inside inside.1 inside.2).symm
  · rw [get_of_not_inside inside, get_of_not_inside fun mirrored => inside mirrored.symm]

@[simp] theorem get_zeros (nrow ncol row column : Nat) :
    (zeros nrow ncol : Dense K).get row column = 0 := by
  rw [get]
  split <;> rfl

/-! ## Blocks -/

section Blocks

variable {kind : ConcatKind} {first second : Dense K} {row column : Nat}

theorem nrow_concat (kind : ConcatKind) (parts : List (Dense K)) :
    (concat kind parts).nrow = kind.height (parts.map nrow) := by
  induction parts with
  | nil => cases kind <;> rfl
  | cons first parts ih =>
      have joined : concat kind (first :: parts) = join kind first (concat kind parts) := rfl
      rw [joined]
      cases kind with
      | horizontal => rfl
      | vertical => exact congrArg (first.nrow + ·) ih
      | diagonal => exact congrArg (first.nrow + ·) ih

theorem ncol_concat (kind : ConcatKind) (parts : List (Dense K)) :
    (concat kind parts).ncol = kind.width (parts.map ncol) := by
  induction parts with
  | nil => cases kind <;> rfl
  | cons first parts ih =>
      have joined : concat kind (first :: parts) = join kind first (concat kind parts) := rfl
      rw [joined]
      cases kind with
      | horizontal => exact congrArg (first.ncol + ·) ih
      | vertical => rfl
      | diagonal => exact congrArg (first.ncol + ·) ih

theorem get_join_first (rowInside : row < first.nrow) (columnInside : column < first.ncol) :
    (join kind first second).get row column = first.get row column := by
  cases kind with
  | horizontal =>
      rw [join, get_ofFn rowInside (Nat.lt_add_right _ columnInside), if_pos columnInside]
  | vertical =>
      rw [join, get_ofFn (Nat.lt_add_right _ rowInside) columnInside, if_pos rowInside]
  | diagonal =>
      rw [join, get_ofFn (Nat.lt_add_right _ rowInside) (Nat.lt_add_right _ columnInside),
        if_pos ⟨rowInside, columnInside⟩]

theorem get_join_second (rowInside : row < second.nrow) (columnInside : column < second.ncol)
    (aligned : match kind with
      | .horizontal => second.nrow ≤ first.nrow
      | .vertical => second.ncol ≤ first.ncol
      | .diagonal => True) :
    (join kind first second).get (kind.rowShift [first.nrow] 1 + row)
      (kind.columnShift [first.ncol] 1 + column) = second.get row column := by
  cases kind with
  | horizontal =>
      have inside : row < first.nrow := Nat.lt_of_lt_of_le rowInside aligned
      simp only [ConcatKind.rowShift, ConcatKind.columnShift, List.take_one, List.head?_cons,
        Option.toList_some, total_cons, total_nil, Nat.add_zero, Nat.zero_add]
      rw [join, get_ofFn inside (by omega), if_neg (by omega), Nat.add_sub_cancel_left]
  | vertical =>
      have inside : column < first.ncol := Nat.lt_of_lt_of_le columnInside aligned
      simp only [ConcatKind.rowShift, ConcatKind.columnShift, List.take_one, List.head?_cons,
        Option.toList_some, total_cons, total_nil, Nat.add_zero, Nat.zero_add]
      rw [join, get_ofFn (by omega) inside, if_neg (by omega), Nat.add_sub_cancel_left]
  | diagonal =>
      simp only [ConcatKind.rowShift, ConcatKind.columnShift, List.take_one, List.head?_cons,
        Option.toList_some, total_cons, total_nil, Nat.add_zero]
      rw [join, get_ofFn (by omega) (by omega), if_neg (by omega), if_pos (by omega),
        Nat.add_sub_cancel_left, Nat.add_sub_cancel_left]

theorem join_cases (kind : ConcatKind) (first second : Dense K) (row column : Nat) :
    (row < first.nrow ∧ column < first.ncol) ∨
      (∃ row' column', row = kind.rowShift [first.nrow] 1 + row' ∧
        column = kind.columnShift [first.ncol] 1 + column' ∧
        (second.get row' column' = 0 → (join kind first second).get row column = 0)) ∨
      (join kind first second).get row column = 0 := by
  by_cases inJoin : row < (join kind first second).nrow ∧ column < (join kind first second).ncol
  · by_cases inFirst : row < first.nrow ∧ column < first.ncol
    · exact .inl inFirst
    · cases kind with
      | horizontal =>
          have rowInside : row < first.nrow := inJoin.1
          have columnInside : column < first.ncol + second.ncol := inJoin.2
          refine .inr (.inl ⟨row, column - first.ncol, ?_, ?_, fun isZero => ?_⟩)
          · simp [ConcatKind.rowShift]
          · simp [ConcatKind.columnShift]
            omega
          · rw [join, get_ofFn rowInside columnInside, if_neg (by omega), isZero]
      | vertical =>
          have rowInside : row < first.nrow + second.nrow := inJoin.1
          have columnInside : column < first.ncol := inJoin.2
          refine .inr (.inl ⟨row - first.nrow, column, ?_, ?_, fun isZero => ?_⟩)
          · simp [ConcatKind.rowShift]
            omega
          · simp [ConcatKind.columnShift]
          · rw [join, get_ofFn rowInside columnInside, if_neg (by omega), isZero]
      | diagonal =>
          have rowInside : row < first.nrow + second.nrow := inJoin.1
          have columnInside : column < first.ncol + second.ncol := inJoin.2
          by_cases inSecond : first.nrow ≤ row ∧ first.ncol ≤ column
          · refine .inr (.inl ⟨row - first.nrow, column - first.ncol, ?_, ?_, fun isZero => ?_⟩)
            · simp [ConcatKind.rowShift]
              omega
            · simp [ConcatKind.columnShift]
              omega
            · rw [join, get_ofFn rowInside columnInside, if_neg inFirst, if_pos inSecond, isZero]
          · refine .inr (.inr ?_)
            rw [join, get_ofFn rowInside columnInside, if_neg inFirst, if_neg inSecond]
  · exact .inr (.inr (get_of_not_inside inJoin))

theorem get_concat {parts : List (Dense K)}
    (aligned : kind.Aligned (parts.map nrow) (parts.map ncol)) {number : Nat} {part : Dense K}
    (found : parts[number]? = some part) (rowInside : row < part.nrow)
    (columnInside : column < part.ncol) :
    (concat kind parts).get (kind.rowShift (parts.map nrow) number + row)
      (kind.columnShift (parts.map ncol) number + column) = part.get row column := by
  induction parts generalizing number with
  | nil => simp at found
  | cons first parts ih =>
      have joined : concat kind (first :: parts) = join kind first (concat kind parts) := rfl
      rw [joined]
      rcases number with _ | number
      · cases found
        rw [kind.rowShift_zero, kind.columnShift_zero, Nat.zero_add, Nat.zero_add]
        exact get_join_first rowInside columnInside
      · have isPart : parts[number]? = some part := by simpa using found
        have rowBelow := aligned.tail.row_lt (getElem?_map_of isPart) rowInside
        have columnBelow := aligned.tail.column_lt (getElem?_map_of isPart) columnInside
        rw [← nrow_concat] at rowBelow
        rw [← ncol_concat] at columnBelow
        rw [List.map_cons, List.map_cons, kind.rowShift_cons, kind.columnShift_cons, Nat.add_assoc,
          Nat.add_assoc, get_join_second rowBelow columnBelow]
        · exact ih aligned.tail isPart
        · cases kind with
          | horizontal =>
              rw [nrow_concat]
              exact ConcatKind.headD_le aligned
          | vertical =>
              rw [ncol_concat]
              exact ConcatKind.headD_le aligned
          | diagonal => trivial

theorem concat_cases (kind : ConcatKind) (parts : List (Dense K)) (row column : Nat) :
    (∃ number part row' column', parts[number]? = some part ∧ row' < part.nrow ∧
        column' < part.ncol ∧ row = kind.rowShift (parts.map nrow) number + row' ∧
        column = kind.columnShift (parts.map ncol) number + column') ∨
      (concat kind parts).get row column = 0 := by
  induction parts generalizing row column with
  | nil => exact .inr (get_zeros ..)
  | cons first parts ih =>
      have joined : concat kind (first :: parts) = join kind first (concat kind parts) := rfl
      rw [joined]
      rcases join_cases kind first (concat kind parts) row column with
        ⟨rowInside, columnInside⟩ | ⟨row', column', rfl, rfl, isZero⟩ | isZero
      · refine .inl ⟨0, first, row, column, rfl, rowInside, columnInside, ?_, ?_⟩
        · simp
        · simp
      · rcases ih row' column' with ⟨number, part, row'', column'', found, rowInside, columnInside,
          rfl, rfl⟩ | restZero
        · refine .inl ⟨number + 1, part, row'', column'', found, rowInside, columnInside, ?_, ?_⟩
          · rw [List.map_cons, kind.rowShift_cons first.nrow (parts.map nrow), Nat.add_assoc]
          · rw [List.map_cons, kind.columnShift_cons first.ncol (parts.map ncol), Nat.add_assoc]
        · exact .inr (isZero restZero)
      · exact .inr isZero

end Blocks

end Dense

end Autodiff
