import Autodiff.Pattern.Basic
import Mathlib.Data.List.Nodup

/-!
# Positions of a pattern

The stored positions of a pattern are enumerated column by column. Membership in this enumeration is
membership in a column (`mem_positions`). In a well-formed pattern the enumeration ascends, so every
position occurs once, and looking it up finds its place in the enumeration (`nonzero?_eq_some`).
-/

namespace Autodiff

/-- An element of a flattened list is an element of one of its parts, behind all earlier parts. -/
theorem getElem?_flatMap_eq_some {α β : Type} {parts : List α} {expand : α → List β} {index : Nat}
    {element : β} :
    (parts.flatMap expand)[index]? = some element ↔
      ∃ number part offset, parts[number]? = some part ∧ (expand part)[offset]? = some element ∧
        index = total ((parts.take number).map fun part => (expand part).length) + offset := by
  induction parts generalizing index with
  | nil => simp
  | cons first parts ih =>
      rw [List.flatMap_cons]
      constructor
      · intro found
        by_cases inFirst : index < (expand first).length
        · rw [List.getElem?_append_left inFirst] at found
          exact ⟨0, first, index, rfl, found, by simp⟩
        · rw [List.getElem?_append_right (by omega)] at found
          rcases ih.mp found with ⟨number, part, offset, isPart, isElement, located⟩
          refine ⟨number + 1, part, offset, isPart, isElement, ?_⟩
          simp only [List.take_succ_cons, List.map_cons, total_cons]
          omega
      · rintro ⟨number, part, offset, isPart, isElement, rfl⟩
        rcases number with _ | number
        · cases isPart
          have inside := (List.getElem?_eq_some_iff.mp isElement).1
          simpa [List.getElem?_append_left inside] using isElement
        · simp only [List.take_succ_cons, List.map_cons, total_cons, Nat.add_assoc]
          rw [List.getElem?_append_right (by omega), Nat.add_sub_cancel_left]
          exact ih.mpr ⟨number, part, offset, isPart, isElement, rfl⟩

theorem getElem?_map_range {α : Type} {count index : Nat} {make : Nat → α} {element : α} :
    ((List.range count).map make)[index]? = some element ↔ index < count ∧ make index = element := by
  simp [List.getElem?_eq_some_iff]

namespace Pattern

/-- The positions of columns that are numbered from `start` on. -/
def positionsFrom (start : Nat) (columns : List (List Nat)) : List (Nat × Nat) :=
  (columns.zipIdx start).flatMap fun column => column.1.map fun row => (row, column.2)

theorem positions_eq (pattern : Pattern) : pattern.positions = positionsFrom 0 pattern.columns :=
  rfl

theorem positionsFrom_cons (start : Nat) (column : List Nat) (columns : List (List Nat)) :
    positionsFrom start (column :: columns) =
      (column.map fun row => (row, start)) ++ positionsFrom (start + 1) columns := by
  simp [positionsFrom]

theorem mem_positionsFrom {start row column : Nat} {columns : List (List Nat)} :
    (row, column) ∈ positionsFrom start columns ↔
      start ≤ column ∧ ∃ rows, columns[column - start]? = some rows ∧ row ∈ rows := by
  simp only [positionsFrom, List.mem_flatMap, List.mem_map, Prod.mk.injEq, Prod.exists]
  constructor
  · rintro ⟨rows, index, member, found, foundMem, rfl, rfl⟩
    rw [List.mk_mem_zipIdx_iff_le_and_getElem?_sub] at member
    exact ⟨member.1, rows, member.2, foundMem⟩
  · rintro ⟨atLeast, rows, found, rowMem⟩
    exact ⟨rows, column, List.mk_mem_zipIdx_iff_le_and_getElem?_sub.mpr ⟨atLeast, found⟩, row,
      rowMem, rfl, rfl⟩

theorem mem_positions {pattern : Pattern} {row column : Nat} :
    (row, column) ∈ pattern.positions ↔
      ∃ rows, pattern.columns[column]? = some rows ∧ row ∈ rows := by
  rw [positions_eq, mem_positionsFrom]
  simp

theorem getElem?_positions {pattern : Pattern} {index row column : Nat} :
    pattern.positions[index]? = some (row, column) ↔
      ∃ rows offset, pattern.columns[column]? = some rows ∧ rows[offset]? = some row ∧
        index = pattern.columnStart column + offset := by
  have lengths : ∀ number, total ((pattern.columns.zipIdx.take number).map fun column =>
      (column.1.map fun row => (row, column.2)).length) = pattern.columnStart number := by
    intro number
    have mapped : (pattern.columns.zipIdx.take number).map Prod.fst =
        pattern.columns.take number := by
      rw [List.map_take, List.zipIdx_map_fst]
    rw [columnStart, ← mapped, List.map_map]
    simp only [List.length_map, Function.comp_def]
  rw [positions_eq, positionsFrom, getElem?_flatMap_eq_some]
  simp only [lengths, List.getElem?_map, Option.map_eq_some_iff, Prod.mk.injEq]
  constructor
  · rintro ⟨number, ⟨rows, _⟩, offset, isColumn, ⟨_, isRow, rfl, rfl⟩, rfl⟩
    rw [List.getElem?_zipIdx, Option.map_eq_some_iff] at isColumn
    rcases isColumn with ⟨_, isColumn, same⟩
    simp only [Nat.zero_add, Prod.mk.injEq] at same
    rcases same with ⟨rfl, rfl⟩
    exact ⟨_, offset, isColumn, isRow, rfl⟩
  · rintro ⟨rows, offset, isColumn, isRow, rfl⟩
    refine ⟨column, (rows, column), offset, ?_, ⟨row, isRow, rfl, rfl⟩, rfl⟩
    rw [List.getElem?_zipIdx, isColumn]
    simp

theorem length_positions (pattern : Pattern) : pattern.positions.length = pattern.nnz := by
  rw [positions_eq, nnz]
  generalize pattern.columns = columns
  have from_any : ∀ start, (positionsFrom start columns).length =
      total (columns.map List.length) := by
    induction columns with
    | nil => intro start; rfl
    | cons column columns ih =>
        intro start
        rw [positionsFrom_cons, List.length_append, List.length_map, ih]
        rfl
  exact from_any 0

theorem lt_nnz_of_getElem? {pattern : Pattern} {index : Nat} {position : Nat × Nat}
    (found : pattern.positions[index]? = some position) : index < pattern.nnz := by
  rw [← length_positions]
  exact (List.getElem?_eq_some_iff.mp found).1

theorem getElem?_of_searchRow {rows : List Nat} {row bits base place : Nat}
    (found : searchRow rows row bits base = some place) : rows[place]? = some row := by
  induction bits generalizing base with
  | zero =>
      rw [searchRow] at found
      split at found
      · rename_i stored
        cases found
        exact stored
      · cases found
  | succ bits ih => exact ih found

/-- Each half of the search range that is left holds the place of the row. -/
theorem searchRow_isSome {rows : List Nat} (ascending : rows.Pairwise (· < ·)) {row bits base place : Nat}
    (stored : rows[place]? = some row) (atLeast : base ≤ place) (below : place < base + 1 <<< bits) :
    (searchRow rows row bits base).isSome := by
  induction bits generalizing base with
  | zero =>
      obtain rfl : place = base := Nat.le_antisymm (Nat.le_of_lt_succ below) atLeast
      simp [searchRow, stored]
  | succ bits ih =>
      rw [Nat.shiftLeft_succ] at below
      rcases List.getElem?_eq_some_iff.mp stored with ⟨inside, rfl⟩
      have ordered := List.pairwise_iff_getElem.mp ascending
      by_cases passed : rows[base + 1 <<< bits]?.any (· ≤ rows[place])
      · rw [searchRow, if_pos passed]
        refine ih (Nat.le_of_not_lt fun less => ?_) (by omega)
        rcases (Option.any_eq_true _ _).mp passed with ⟨_, isMiddle, atMost⟩
        rcases List.getElem?_eq_some_iff.mp isMiddle with ⟨middleInside, rfl⟩
        exact Nat.not_lt_of_le (of_decide_eq_true atMost) (ordered _ _ inside middleInside less)
      · rw [searchRow, if_neg passed]
        refine ih atLeast (Nat.lt_of_not_le fun notBefore => passed ?_)
        have middleInside := Nat.lt_of_le_of_lt notBefore inside
        rw [List.getElem?_eq_getElem middleInside, Option.any_some, decide_eq_true_eq]
        rcases Nat.lt_or_eq_of_le notBefore with less | same
        · exact Nat.le_of_lt (ordered _ _ middleInside inside less)
        · simp [same]

theorem getElem?_positions_of_nonzero? {pattern : Pattern} {row column index : Nat}
    (found : pattern.nonzero? row column = some index) :
    pattern.positions[index]? = some (row, column) := by
  rw [nonzero?] at found
  split at found
  · cases found
  · rename_i rows isColumn
    rcases Option.map_eq_some_iff.mp found with ⟨offset, isPlace, rfl⟩
    exact getElem?_positions.mpr ⟨rows, offset, isColumn, getElem?_of_searchRow isPlace, rfl⟩

theorem nonzero?_eq_none_of_not_mem {pattern : Pattern} {row column : Nat}
    (absent : (row, column) ∉ pattern.positions) : pattern.nonzero? row column = none := by
  rcases found : pattern.nonzero? row column with _ | index
  · rfl
  · exact absurd (List.mem_of_getElem? (getElem?_positions_of_nonzero? found)) absent

namespace WellFormed

variable {pattern : Pattern}

theorem lt_of_mem (wellFormed : pattern.WellFormed) {row column : Nat}
    (member : (row, column) ∈ pattern.positions) : row < pattern.nrow ∧ column < pattern.ncol := by
  rcases mem_positions.mp member with ⟨rows, found, rowMem⟩
  exact ⟨(wellFormed rows (List.mem_of_getElem? found)).2 row rowMem,
    (List.getElem?_eq_some_iff.mp found).1⟩

theorem pairwise_positions (wellFormed : pattern.WellFormed) :
    pattern.positions.Pairwise fun earlier later =>
      earlier.2 < later.2 ∨ (earlier.2 = later.2 ∧ earlier.1 < later.1) := by
  rw [positions_eq]
  have ascending : ∀ column ∈ pattern.columns, column.Pairwise (· < ·) :=
    fun column member => (wellFormed column member).1
  revert ascending
  generalize pattern.columns = columns
  generalize 0 = start
  intro ascending
  induction columns generalizing start with
  | nil => exact .nil
  | cons column columns ih =>
      rw [positionsFrom_cons, List.pairwise_append]
      refine ⟨?_, ih _ fun other member => ascending other (List.mem_cons_of_mem _ member), ?_⟩
      · rw [List.pairwise_map]
        exact (ascending column (List.mem_cons_self ..)).imp fun less => .inr ⟨rfl, less⟩
      · rintro ⟨row, index⟩ inColumn ⟨row', index'⟩ later
        simp only [List.mem_map, Prod.mk.injEq] at inColumn
        rcases inColumn with ⟨_, _, _, rfl⟩
        have := (mem_positionsFrom.mp later).1
        exact .inl (by simp only; omega)

theorem nodup_positions (wellFormed : pattern.WellFormed) : pattern.positions.Nodup := by
  refine wellFormed.pairwise_positions.imp ?_
  rintro earlier later ordered rfl
  omega

theorem nonzero?_isSome (wellFormed : pattern.WellFormed) {row column : Nat}
    (member : (row, column) ∈ pattern.positions) : (pattern.nonzero? row column).isSome := by
  rcases mem_positions.mp member with ⟨rows, isColumn, isRow⟩
  rcases List.mem_iff_getElem?.mp isRow with ⟨place, stored⟩
  have inside := (List.getElem?_eq_some_iff.mp stored).1
  have ascending := (wellFormed rows (List.mem_of_getElem? isColumn)).1
  rw [nonzero?, isColumn, Option.isSome_map]
  refine searchRow_isSome ascending stored (Nat.zero_le _) ?_
  rw [Nat.zero_add, Nat.one_shiftLeft]
  exact Nat.lt_trans inside Nat.lt_log2_self

theorem nonzero?_eq_none (wellFormed : pattern.WellFormed) {row column : Nat} :
    pattern.nonzero? row column = none ↔ (row, column) ∉ pattern.positions := by
  refine ⟨fun absent member => ?_, nonzero?_eq_none_of_not_mem⟩
  simpa [absent] using wellFormed.nonzero?_isSome member

theorem nonzero?_eq_some (wellFormed : pattern.WellFormed) {row column index : Nat} :
    pattern.nonzero? row column = some index ↔
      pattern.positions[index]? = some (row, column) := by
  refine ⟨getElem?_positions_of_nonzero?, fun stored => ?_⟩
  rcases Option.isSome_iff_exists.mp (wellFormed.nonzero?_isSome (List.mem_of_getElem? stored)) with
    ⟨other, found⟩
  have inside := (List.getElem?_eq_some_iff.mp stored).1
  have same := stored.trans (getElem?_positions_of_nonzero? found).symm
  rw [found, (List.getElem?_inj inside wellFormed.nodup_positions).mp same]

theorem contains_iff (wellFormed : pattern.WellFormed) {row column : Nat} :
    pattern.contains row column ↔ (row, column) ∈ pattern.positions := by
  rw [contains, ← Option.ne_none_iff_isSome, ne_eq, wellFormed.nonzero?_eq_none, not_not]

end WellFormed

/-! ## Patterns as relations -/

/-- The well-formed pattern of a given shape that stores a given relation of rows and columns. -/
structure Represents (pattern : Pattern) (shape : Nat × Nat) (stores : Nat → Nat → Prop) :
    Prop where
  wellFormed : pattern.WellFormed
  shape_eq : pattern.shape = shape
  mem_iff : ∀ row column, (row, column) ∈ pattern.positions ↔ stores row column

theorem WellFormed.represents_positions {pattern : Pattern} (wellFormed : pattern.WellFormed) :
    pattern.Represents pattern.shape fun row column => (row, column) ∈ pattern.positions :=
  ⟨wellFormed, rfl, fun _ _ => Iff.rfl⟩

/-- Columns that are given one by one. -/
theorem represents_range {nrow ncol : Nat} {rows : Nat → List Nat} {stores : Nat → Nat → Prop}
    (ascends : ∀ column < ncol, (rows column).Pairwise (· < ·))
    (mem_iff : ∀ row column, column < ncol → (row ∈ rows column ↔ stores row column))
    (inside : ∀ row column, stores row column → row < nrow ∧ column < ncol) :
    Represents ⟨nrow, (List.range ncol).map rows⟩ (nrow, ncol) stores := by
  refine ⟨?_, by simp [shape, Pattern.ncol], fun row column => ?_⟩
  · intro _ member
    rcases List.mem_map.mp member with ⟨column, isColumn, rfl⟩
    rw [List.mem_range] at isColumn
    exact ⟨ascends column isColumn, fun row isRow =>
      (inside row column ((mem_iff row column isColumn).mp isRow)).1⟩
  · simp only [mem_positions, getElem?_map_range]
    constructor
    · rintro ⟨_, ⟨isColumn, rfl⟩, isRow⟩
      exact (mem_iff row column isColumn).mp isRow
    · intro stored
      have isColumn := (inside row column stored).2
      exact ⟨_, ⟨isColumn, rfl⟩, (mem_iff row column isColumn).mpr stored⟩

namespace Represents

variable {pattern other : Pattern} {shape : Nat × Nat} {stores : Nat → Nat → Prop}

variable (represents : pattern.Represents shape stores)
include represents

theorem nrow_eq : pattern.nrow = shape.1 :=
  congrArg Prod.fst represents.shape_eq

theorem ncol_eq : pattern.ncol = shape.2 :=
  congrArg Prod.snd represents.shape_eq

theorem congr {equal : Nat → Nat → Prop} (same : ∀ row column, stores row column ↔ equal row column) :
    pattern.Represents shape equal :=
  ⟨represents.wellFormed, represents.shape_eq, fun row column =>
    (represents.mem_iff row column).trans (same row column)⟩

theorem eq (otherRepresents : other.Represents shape stores) : pattern = other := by
  have sameRows : pattern.nrow = other.nrow :=
    represents.nrow_eq.trans otherRepresents.nrow_eq.symm
  have sameColumns : pattern.columns = other.columns := by
    have sameCount : pattern.columns.length = other.columns.length :=
      represents.ncol_eq.trans otherRepresents.ncol_eq.symm
    refine List.ext_getElem sameCount fun column inside otherInside => ?_
    have found := List.getElem?_eq_getElem inside
    have otherFound := List.getElem?_eq_getElem otherInside
    have ascending := (represents.wellFormed _ (List.getElem_mem inside)).1
    have otherAscending := (otherRepresents.wellFormed _ (List.getElem_mem otherInside)).1
    -- Strictly ascending lists with the same members are equal.
    refine List.Perm.eq_of_pairwise (fun first second _ _ less greater => ?_) ascending
      otherAscending ((List.perm_ext_iff_of_nodup ?_ ?_).mpr fun row => ?_)
    · omega
    · exact ascending.imp Nat.ne_of_lt
    · exact otherAscending.imp Nat.ne_of_lt
    · have both := (represents.mem_iff row column).trans (otherRepresents.mem_iff row column).symm
      simpa [mem_positions, found, otherFound] using both
  cases pattern
  cases other
  simp_all

theorem lt_of_stores {row column : Nat} (stored : stores row column) : row < shape.1 ∧ column < shape.2 := by
  rw [← represents.nrow_eq, ← represents.ncol_eq]
  exact represents.wellFormed.lt_of_mem ((represents.mem_iff row column).mpr stored)

end Represents

end Pattern

end Autodiff
