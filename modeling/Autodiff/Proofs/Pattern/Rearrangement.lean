import Autodiff.Pattern.Rearrange
import Autodiff.Proofs.Outcome
import Autodiff.Proofs.Pattern.Positions

/-!
# Where rearranged entries come from

Transposition and concatenation move stored entries and compute nothing. `Routes` states this for a
derived pattern and its list of sources: every stored position of the result comes from its source, and
every stored entry of an operand arrives at a stored position.
-/

namespace Autodiff

variable {row column : Nat} {pattern : Pattern}

namespace Pattern

variable {σ : Type}

/-- The sources of a pattern, given which source belongs to which position. -/
structure Routes (origin : σ → Nat × Nat → Prop) (pattern : Pattern) (sources : List σ) :
    Prop where
  routed : List.Forall₂ (fun position source => origin source position) pattern.positions sources
  complete : ∀ ⦃source position⦄, origin source position → position ∈ pattern.positions

/-- Positions together with their sources, for columns that are numbered from `start` on. -/
def sourcedFrom (start : Nat) (columns : List (List (Nat × σ))) : List ((Nat × Nat) × σ) :=
  (columns.zipIdx start).flatMap fun column =>
    column.1.map fun entry => ((entry.1, column.2), entry.2)

theorem map_fst_sourcedFrom (start : Nat) (columns : List (List (Nat × σ))) :
    (sourcedFrom start columns).map Prod.fst =
      positionsFrom start (columns.map fun column => column.map Prod.fst) := by
  simp only [sourcedFrom, positionsFrom, List.map_flatMap, List.zipIdx_map, List.flatMap_map,
    Prod.map, id_eq, List.map_map, Function.comp_def]

theorem map_snd_sourcedFrom (start : Nat) (columns : List (List (Nat × σ))) :
    (sourcedFrom start columns).map Prod.snd = columns.flatten.map Prod.snd := by
  have forget : columns = (columns.zipIdx start).map Prod.fst := (List.zipIdx_map_fst ..).symm
  conv_rhs => rw [forget]
  simp only [sourcedFrom, List.map_map, List.map_flatten, List.flatMap, Function.comp_def]

variable {columns : List (List (Nat × σ))}

theorem mem_sourcedFrom {source : σ} :
    ((row, column), source) ∈ sourcedFrom 0 columns ↔
      ∃ entries, columns[column]? = some entries ∧ (row, source) ∈ entries := by
  simp only [sourcedFrom, List.mem_flatMap, List.mem_map, Prod.mk.injEq, Prod.exists,
    List.mk_mem_zipIdx_iff_getElem?]
  constructor
  · rintro ⟨entries, _, found, _, _, member, ⟨rfl, rfl⟩, rfl⟩
    exact ⟨entries, found, member⟩
  · rintro ⟨entries, found, member⟩
    exact ⟨entries, column, found, row, source, member, ⟨rfl, rfl⟩, rfl⟩

theorem routes_of_columns {origin : σ → Nat × Nat → Prop} {nrow : Nat} (holds : ∀ row column source,
      (∃ entries, columns[column]? = some entries ∧ (row, source) ∈ entries) ↔
        origin source (row, column)) :
    Routes origin ⟨nrow, columns.map fun column => column.map Prod.fst⟩
      (columns.flatten.map Prod.snd) := by
  have positions : (⟨nrow, columns.map fun column => column.map Prod.fst⟩ : Pattern).positions =
      (sourcedFrom 0 columns).map Prod.fst := by
    rw [map_fst_sourcedFrom, positions_eq]
  constructor
  · rw [positions, ← map_snd_sourcedFrom 0, List.forall₂_map_left_iff, List.forall₂_map_right_iff,
      List.forall₂_same]
    rintro ⟨⟨row, column⟩, source⟩ member
    exact (holds row column source).mp (mem_sourcedFrom.mp member)
  · rintro source ⟨row, column⟩ isOrigin
    rw [positions, List.mem_map]
    exact ⟨((row, column), source), mem_sourcedFrom.mpr ((holds row column source).mpr isOrigin),
      rfl⟩

/-! ## Transposition -/

/-- The source of a position of a transpose is the storage index of the mirrored position. -/
def transposeOrigin (pattern : Pattern) (source : Nat) (position : Nat × Nat) : Prop :=
  pattern.positions[source]? = some (position.2, position.1)

theorem getElem?_entriesByRow {entries : List ((Nat × Nat) × Nat)} :
    pattern.entriesByRow[row]? = some entries ↔
      row < pattern.nrow ∧ entries = pattern.entries.filter fun entry => entry.1.1 == row := by
  rw [entriesByRow, buckets_eq, getElem?_map_range, eq_comm]

/-- The columns of a transpose: the rows of the pattern, each entry with its source. -/
def transposedColumns (pattern : Pattern) : List (List (Nat × Nat)) :=
  pattern.entriesByRow.map fun row => row.map fun entry => (entry.1.2, entry.2)

variable {transposed : Pattern × List Nat}

theorem eq_of_transpose (derived : pattern.transpose = .ok transposed) :
    transposed = (⟨pattern.ncol, pattern.transposedColumns.map fun column => column.map Prod.fst⟩,
      pattern.transposedColumns.flatten.map Prod.snd) := by
  rcases bind_eq_ok.mp derived with ⟨_, _, returned⟩
  rw [← Except.ok.inj returned]
  simp only [transposedColumns, List.flatMap, List.map_flatten, List.map_map, Function.comp_def]

theorem getElem?_transposedColumns {entries : List (Nat × Nat)} :
    pattern.transposedColumns[row]? = some entries ↔ row < pattern.nrow ∧
      entries = (pattern.entries.filter fun entry => entry.1.1 == row).map
        fun entry => (entry.1.2, entry.2) := by
  simp only [transposedColumns, List.getElem?_map, Option.map_eq_some_iff, getElem?_entriesByRow]
  constructor
  · rintro ⟨_, ⟨inside, rfl⟩, rfl⟩
    exact ⟨inside, rfl⟩
  · rintro ⟨inside, rfl⟩
    exact ⟨_, ⟨inside, rfl⟩, rfl⟩

theorem WellFormed.mem_transposedColumns (wellFormed : pattern.WellFormed) (row column source : Nat) :
    (∃ entries, pattern.transposedColumns[column]? = some entries ∧ (row, source) ∈ entries) ↔
      pattern.transposeOrigin source (row, column) := by
  simp only [getElem?_transposedColumns, transposeOrigin]
  constructor
  · rintro ⟨_, ⟨_, rfl⟩, member⟩
    rcases List.mem_map.mp member with ⟨⟨⟨row', column'⟩, index⟩, kept, same⟩
    rcases List.mem_filter.mp kept with ⟨isEntry, sameRow⟩
    cases same
    rw [beq_iff_eq] at sameRow
    cases sameRow
    exact List.mk_mem_zipIdx_iff_getElem?.mp isEntry
  · intro found
    have inside := wellFormed.lt_of_mem (List.mem_of_getElem? found)
    refine ⟨_, ⟨inside.1, rfl⟩, List.mem_map.mpr ⟨((column, row), source), ?_, rfl⟩⟩
    exact List.mem_filter.mpr ⟨List.mk_mem_zipIdx_iff_getElem?.mpr found, by simp⟩

/-- Entries of one row ascend by column, because all entries ascend by column, then row. -/
theorem WellFormed.pairwise_entries_of_row (wellFormed : pattern.WellFormed) (row : Nat) :
    (pattern.entries.filter fun entry => entry.1.1 == row).Pairwise
      fun earlier later => earlier.1.2 < later.1.2 := by
  have ascending : pattern.entries.Pairwise fun earlier later =>
      earlier.1.2 < later.1.2 ∨ (earlier.1.2 = later.1.2 ∧ earlier.1.1 < later.1.1) := by
    have ordered := wellFormed.pairwise_positions
    rw [← List.zipIdx_map_fst 0 pattern.positions, List.pairwise_map] at ordered
    exact ordered
  refine (ascending.filter _).imp_of_mem ?_
  intro earlier later earlierMem laterMem ordered
  have sameRow := (List.mem_filter.mp earlierMem).2
  have sameRow' := (List.mem_filter.mp laterMem).2
  simp only [beq_iff_eq] at sameRow sameRow'
  omega

theorem WellFormed.transpose (wellFormed : pattern.WellFormed) (derived : pattern.transpose = .ok transposed) :
    transposed.1.WellFormed := by
  rw [eq_of_transpose derived]
  intro column member
  rcases List.mem_map.mp member with ⟨entries, isRow, rfl⟩
  rcases List.mem_iff_getElem?.mp isRow with ⟨row, found⟩
  rcases getElem?_transposedColumns.mp found with ⟨_, rfl⟩
  constructor
  · rw [List.pairwise_map, List.pairwise_map]
    exact wellFormed.pairwise_entries_of_row row
  · intro index indexMem
    simp only [List.map_map, List.mem_map, Function.comp_apply] at indexMem
    rcases indexMem with ⟨⟨⟨row', column'⟩, source⟩, kept, rfl⟩
    have isEntry := List.mk_mem_zipIdx_iff_getElem?.mp (List.mem_filter.mp kept).1
    exact (wellFormed.lt_of_mem (List.mem_of_getElem? isEntry)).2

theorem exists_transpose (fits : pattern.nrow + 1 ≤ maxBuffer) :
    ∃ transposed, pattern.transpose = .ok transposed := by
  simp only [transpose, requireBuffer, if_pos fits]
  exact ⟨_, rfl⟩

theorem shape_of_transpose (derived : pattern.transpose = .ok transposed) :
    transposed.1.shape = (pattern.ncol, pattern.nrow) := by
  rw [eq_of_transpose derived]
  simp [shape, ncol, transposedColumns, entriesByRow, buckets_eq]

theorem WellFormed.transpose_routes (wellFormed : pattern.WellFormed) (derived : pattern.transpose = .ok transposed) :
    Routes pattern.transposeOrigin transposed.1 transposed.2 := by
  rw [eq_of_transpose derived]
  exact routes_of_columns wellFormed.mem_transposedColumns

/-! ## Concatenation -/

end Pattern

variable {kind : ConcatKind} {heights widths : List Nat}

namespace ConcatKind

def rowShift (kind : ConcatKind) (heights : List Nat) (part : Nat) : Nat :=
  match kind with
  | .horizontal => 0
  | .vertical | .diagonal => total (heights.take part)

def columnShift (kind : ConcatKind) (widths : List Nat) (part : Nat) : Nat :=
  match kind with
  | .vertical => 0
  | .horizontal | .diagonal => total (widths.take part)

def height (kind : ConcatKind) (heights : List Nat) : Nat :=
  match kind with
  | .horizontal => heights.headD 0
  | .vertical | .diagonal => total heights

def width (kind : ConcatKind) (widths : List Nat) : Nat :=
  match kind with
  | .vertical => widths.headD 0
  | .horizontal | .diagonal => total widths

/-- Parts side by side have the same rows, and parts on top of each other the same columns. -/
def Aligned (kind : ConcatKind) (heights widths : List Nat) : Prop :=
  match kind with
  | .horizontal => ∀ rows ∈ heights, rows = heights.headD 0
  | .vertical => ∀ columns ∈ widths, columns = widths.headD 0
  | .diagonal => True

@[simp] theorem rowShift_zero (kind : ConcatKind) (heights : List Nat) :
    kind.rowShift heights 0 = 0 := by
  cases kind <;> simp [rowShift]

@[simp] theorem columnShift_zero (kind : ConcatKind) (widths : List Nat) :
    kind.columnShift widths 0 = 0 := by
  cases kind <;> simp [columnShift]

theorem rowShift_cons (kind : ConcatKind) (first : Nat) (heights : List Nat)
    (number : Nat) :
    kind.rowShift (first :: heights) (number + 1) =
      kind.rowShift [first] 1 + kind.rowShift heights number := by
  cases kind <;> simp [rowShift]

theorem columnShift_cons (kind : ConcatKind) (first : Nat) (widths : List Nat)
    (number : Nat) :
    kind.columnShift (first :: widths) (number + 1) =
      kind.columnShift [first] 1 + kind.columnShift widths number := by
  cases kind <;> simp [columnShift]

theorem Aligned.tail {first first' : Nat} (aligned : kind.Aligned (first :: heights) (first' :: widths)) :
    kind.Aligned heights widths := by
  have equal : ∀ {size : Nat} {sizes : List Nat},
      (∀ other ∈ size :: sizes, other = size) → ∀ other ∈ sizes, other = sizes.headD 0 := by
    intro size sizes same other member
    rcases sizes with _ | ⟨second, sizes⟩
    · cases member
    · rw [same other (List.mem_cons_of_mem _ member)]
      exact (same second (by simp)).symm
  cases kind with
  | horizontal => exact equal aligned
  | vertical => exact equal aligned
  | diagonal => trivial

end ConcatKind

variable {number : Nat}

theorem getElem?_map_of {α : Type} {parts : List α} {measure : α → Nat} {part : α}
    (found : parts[number]? = some part) :
    (parts.map measure)[number]? = some (measure part) := by
  rw [List.getElem?_map, found]
  rfl

variable {sizes : List Nat} {size : Nat}

theorem total_take_add_le {earlier later : Nat} (before : earlier < later) (found : sizes[earlier]? = some size) :
    total (sizes.take earlier) + size ≤ total (sizes.take later) := by
  induction sizes generalizing earlier later with
  | nil => simp at found
  | cons first sizes ih =>
      rcases later with _ | later
      · omega
      · rcases earlier with _ | earlier
        · cases found
          simp
        · have shorter := ih (Nat.lt_of_succ_lt_succ before) found
          simp only [List.take_succ_cons, total_cons]
          omega

theorem total_take_add_le_total (found : sizes[number]? = some size) :
    total (sizes.take number) + size ≤ total sizes := by
  have inside := (List.getElem?_eq_some_iff.mp found).1
  simpa using total_take_add_le inside found

namespace ConcatKind

theorem Aligned.row_lt (aligned : kind.Aligned heights widths) (found : heights[number]? = some size)
    (inside : row < size) :
    kind.rowShift heights number + row < kind.height heights := by
  have shifted := total_take_add_le_total found
  cases kind with
  | horizontal =>
      have same : size = heights.headD 0 := aligned size (List.mem_of_getElem? found)
      simp only [rowShift, height]
      omega
  | vertical | diagonal =>
      simp only [rowShift, height]
      omega

theorem Aligned.column_lt (aligned : kind.Aligned heights widths) (found : widths[number]? = some size)
    (inside : column < size) :
    kind.columnShift widths number + column < kind.width widths := by
  have shifted := total_take_add_le_total found
  cases kind with
  | vertical =>
      have same : size = widths.headD 0 := aligned size (List.mem_of_getElem? found)
      simp only [columnShift, width]
      omega
  | horizontal | diagonal =>
      simp only [columnShift, width]
      omega

/-- The common size of later parts does not exceed that of the first. -/
theorem headD_le {first : Nat} (same : ∀ size ∈ first :: sizes, size = first) : sizes.headD 0 ≤ first := by
  rcases sizes with _ | ⟨second, sizes⟩
  · exact Nat.zero_le _
  · exact Nat.le_of_eq (same second (by simp))

end ConcatKind

namespace Pattern

/-- The source of a position of a concatenation is a stored position of a part, shifted to where the
part stands. -/
def concatOrigin (kind : ConcatKind) (parts : List Pattern) (source : PartEntry)
    (position : Nat × Nat) : Prop :=
  ∃ part stored, parts[source.1]? = some part ∧ part.positions[source.2]? = some stored ∧
    position = (kind.rowShift (parts.map nrow) source.1 + stored.1,
      kind.columnShift (parts.map ncol) source.1 + stored.2)

theorem concatOrigin_unique {parts : List Pattern} (wellFormed : ∀ part ∈ parts, part.WellFormed)
    {first second : PartEntry} {position : Nat × Nat} (firstOrigin : concatOrigin kind parts first position)
    (secondOrigin : concatOrigin kind parts second position) : first = second := by
  rcases first with ⟨firstNumber, firstIndex⟩
  rcases second with ⟨secondNumber, secondIndex⟩
  rcases firstOrigin with ⟨firstPart, ⟨row, column⟩, firstFound, firstStored, rfl⟩
  rcases secondOrigin with ⟨secondPart, ⟨row', column'⟩, secondFound, secondStored, same⟩
  have firstWellFormed := wellFormed firstPart (List.mem_of_getElem? firstFound)
  have secondWellFormed := wellFormed secondPart (List.mem_of_getElem? secondFound)
  have firstInside := firstWellFormed.lt_of_mem (List.mem_of_getElem? firstStored)
  have secondInside := secondWellFormed.lt_of_mem (List.mem_of_getElem? secondStored)
  rw [Prod.mk.injEq] at same
  dsimp only at firstFound firstStored secondFound secondStored same
  have apart : ∀ {earlier later : Nat} {part : Pattern}, earlier < later →
      parts[earlier]? = some part →
      total ((parts.map nrow).take earlier) + part.nrow ≤ total ((parts.map nrow).take later) ∧
        total ((parts.map ncol).take earlier) + part.ncol ≤ total ((parts.map ncol).take later) :=
    fun before found => ⟨total_take_add_le before (getElem?_map_of found),
      total_take_add_le before (getElem?_map_of found)⟩
  have sameNumber : firstNumber = secondNumber := by
    rcases Nat.lt_trichotomy firstNumber secondNumber with before | equal | after
    · have separate := apart before firstFound
      cases kind <;> simp only [ConcatKind.rowShift, ConcatKind.columnShift] at same <;> omega
    · exact equal
    · have separate := apart after secondFound
      cases kind <;> simp only [ConcatKind.rowShift, ConcatKind.columnShift] at same <;> omega
  subst sameNumber
  cases Option.some.inj (firstFound.symm.trans secondFound)
  obtain ⟨rfl, rfl⟩ : row = row' ∧ column = column' := by omega
  have sameIndex := (firstWellFormed.nonzero?_eq_some.mpr firstStored).symm.trans
    (firstWellFormed.nonzero?_eq_some.mpr secondStored)
  rw [Option.some.inj sameIndex]

theorem getElem?_sourcedColumns {shift : Nat} {entries : List (Nat × PartEntry)} :
    (pattern.sourcedColumns number shift)[column]? = some entries ↔
      ∃ rows, pattern.columns[column]? = some rows ∧ entries = rows.zipIdx.map fun entry =>
        (shift + entry.1, (number, pattern.columnStart column + entry.2)) := by
  simp only [sourcedColumns, List.getElem?_map, List.getElem?_zipIdx, Option.map_map,
    Option.map_eq_some_iff, Nat.zero_add, Function.comp_apply]
  constructor
  · rintro ⟨rows, found, rfl⟩
    exact ⟨rows, found, rfl⟩
  · rintro ⟨rows, found, rfl⟩
    exact ⟨rows, found, rfl⟩

theorem mem_sourcedColumns {shift : Nat} {source : PartEntry} :
    (∃ entries, (pattern.sourcedColumns number shift)[column]? = some entries ∧
        (row, source) ∈ entries) ↔
      source.1 = number ∧ ∃ stored, pattern.positions[source.2]? = some stored ∧
        row = shift + stored.1 ∧ column = stored.2 := by
  simp only [getElem?_sourcedColumns]
  constructor
  · rintro ⟨_, ⟨rows, found, rfl⟩, member⟩
    rcases List.mem_map.mp member with ⟨⟨inner, offset⟩, isRow, same⟩
    cases same
    exact ⟨rfl, (inner, column), getElem?_positions.mpr
      ⟨rows, offset, found, List.mk_mem_zipIdx_iff_getElem?.mp isRow, rfl⟩, rfl, rfl⟩
  · rcases source with ⟨_, index⟩
    rintro ⟨rfl, ⟨inner, _⟩, stored, rfl, rfl⟩
    rcases getElem?_positions.mp stored with ⟨rows, offset, found, isRow, rfl⟩
    exact ⟨_, ⟨rows, found, rfl⟩, List.mem_map.mpr
      ⟨(inner, offset), List.mk_mem_zipIdx_iff_getElem?.mpr isRow, rfl⟩⟩

theorem length_sourcedColumns (pattern : Pattern) (number shift : Nat) :
    (pattern.sourcedColumns number shift).length = pattern.ncol := by
  simp [sourcedColumns, ncol]

theorem map_ncol_zipIdx (parts : List Pattern) :
    (parts.zipIdx.map fun numbered => numbered.1.ncol) = parts.map ncol := by
  conv_rhs => rw [← List.zipIdx_map_fst 0 parts, List.map_map]
  rfl

/-- The columns of all parts one after the other, the rows of each part shifted. -/
def besideColumns (shift : Nat → Nat) (parts : List Pattern) : List (List (Nat × PartEntry)) :=
  parts.zipIdx.flatMap fun numbered =>
    numbered.1.sourcedColumns numbered.2 (shift numbered.2)

theorem mem_besideColumns {shift : Nat → Nat} {parts : List Pattern} {source : PartEntry} :
    (∃ entries, (besideColumns shift parts)[column]? = some entries ∧
        (row, source) ∈ entries) ↔
      ∃ part stored, parts[source.1]? = some part ∧ part.positions[source.2]? = some stored ∧
        row = shift source.1 + stored.1 ∧
        column = total ((parts.map ncol).take source.1) + stored.2 := by
  have widths : ∀ number, total ((parts.zipIdx.take number).map fun numbered =>
      (numbered.1.sourcedColumns numbered.2 (shift numbered.2)).length) =
        total ((parts.map ncol).take number) := by
    intro number
    simp only [length_sourcedColumns, ← map_ncol_zipIdx, List.map_take]
  have numbered : ∀ (number : Nat) (pair : Pattern × Nat),
      parts.zipIdx[number]? = some pair ↔ parts[number]? = some pair.1 ∧ pair.2 = number := by
    rintro number ⟨part, index⟩
    rw [List.getElem?_zipIdx, Option.map_eq_some_iff]
    constructor
    · rintro ⟨_, found, same⟩
      cases same
      exact ⟨found, Nat.zero_add _⟩
    · rintro ⟨found, rfl⟩
      exact ⟨part, found, by simp⟩
  simp only [besideColumns, getElem?_flatMap_eq_some, widths, numbered]
  constructor
  · rintro ⟨entries, ⟨number, ⟨part, _⟩, offset, ⟨isPart, rfl⟩, isColumn, rfl⟩, member⟩
    rcases mem_sourcedColumns.mp ⟨entries, isColumn, member⟩ with ⟨rfl, stored, isStored, rfl,
      rfl⟩
    exact ⟨part, stored, isPart, isStored, rfl, rfl⟩
  · rintro ⟨part, stored, isPart, isStored, rfl, rfl⟩
    rcases mem_sourcedColumns.mpr ⟨rfl, stored, isStored, rfl, rfl⟩ with ⟨entries, isColumn, member⟩
    exact ⟨entries, ⟨source.1, (part, source.1), stored.2, ⟨isPart, rfl⟩, isColumn, rfl⟩, member⟩

/-- The columns with a given number of all parts, on top of each other. -/
def stackedColumns (ncol : Nat) (shift : Nat → Nat) (parts : List Pattern) :
    List (List (Nat × PartEntry)) :=
  (List.range ncol).map fun column => parts.zipIdx.flatMap fun numbered =>
    (numbered.1.sourcedColumns numbered.2 (shift numbered.2))[column]?.getD []

theorem mem_stackedColumns {count : Nat} {shift : Nat → Nat} {parts : List Pattern}
    (sameCount : ∀ part ∈ parts, part.ncol = count) {source : PartEntry} :
    (∃ entries, (stackedColumns count shift parts)[column]? = some entries ∧
        (row, source) ∈ entries) ↔
      ∃ part stored, parts[source.1]? = some part ∧ part.positions[source.2]? = some stored ∧
        row = shift source.1 + stored.1 ∧ column = stored.2 := by
  have inColumn : ∀ numbered : Pattern × Nat,
      (row, source) ∈ (numbered.1.sourcedColumns numbered.2 (shift numbered.2))[column]?.getD [] ↔
        ∃ entries, (numbered.1.sourcedColumns numbered.2 (shift numbered.2))[column]? =
          some entries ∧ (row, source) ∈ entries := by
    intro numbered
    cases (numbered.1.sourcedColumns numbered.2 (shift numbered.2))[column]? <;> simp
  simp only [stackedColumns, getElem?_map_range]
  constructor
  · rintro ⟨_, ⟨_, rfl⟩, member⟩
    rcases List.mem_flatMap.mp member with ⟨⟨part, index⟩, isPart, inPart⟩
    rcases mem_sourcedColumns.mp ((inColumn (part, index)).mp inPart) with ⟨same, stored, isStored,
      sameRow, sameColumn⟩
    simp only at same sameRow
    subst same
    exact ⟨part, stored, List.mk_mem_zipIdx_iff_getElem?.mp isPart, isStored, sameRow, sameColumn⟩
  · rintro ⟨part, stored, isPart, isStored, rfl, rfl⟩
    have inside : stored.2 < count := by
      rcases mem_positions.mp (List.mem_of_getElem? isStored) with ⟨rows, isColumn, _⟩
      rw [← sameCount part (List.mem_of_getElem? isPart)]
      exact (List.getElem?_eq_some_iff.mp isColumn).1
    refine ⟨_, ⟨inside, rfl⟩, List.mem_flatMap.mpr
      ⟨(part, source.1), List.mk_mem_zipIdx_iff_getElem?.mpr isPart, ?_⟩⟩
    exact (inColumn (part, source.1)).mpr
      (mem_sourcedColumns.mpr ⟨rfl, stored, isStored, rfl, rfl⟩)

theorem WellFormed.sourcedColumn {part : Pattern} (wellFormed : part.WellFormed) {shift : Nat}
    {entries : List (Nat × PartEntry)} (found : (part.sourcedColumns number shift)[column]? = some entries) :
    (entries.map Prod.fst).Pairwise (· < ·) ∧
      ∀ row ∈ entries.map Prod.fst, shift ≤ row ∧ row < shift + part.nrow := by
  rcases getElem?_sourcedColumns.mp found with ⟨rows, isColumn, rfl⟩
  rcases wellFormed rows (List.mem_of_getElem? isColumn) with ⟨ascending, inside⟩
  have shifted : (rows.zipIdx.map fun entry =>
      (shift + entry.1, (number, part.columnStart column + entry.2))).map Prod.fst =
      rows.map (shift + ·) := by
    conv_rhs => rw [← List.zipIdx_map_fst 0 rows]
    simp only [List.map_map, Function.comp_def]
  rw [shifted]
  constructor
  · rw [List.pairwise_map]
    exact ascending.imp fun less => Nat.add_lt_add_left less shift
  · intro row member
    rcases List.mem_map.mp member with ⟨inner, isRow, rfl⟩
    have := inside inner isRow
    omega

theorem wellFormed_besideColumns {parts : List Pattern} {shift : Nat → Nat} {height : Nat}
    (wellFormed : ∀ part ∈ parts, part.WellFormed)
    (fits : ∀ number part, parts[number]? = some part → shift number + part.nrow ≤ height) :
    WellFormed ⟨height, (besideColumns shift parts).map fun column => column.map Prod.fst⟩ := by
  intro column member
  rcases List.mem_map.mp member with ⟨entries, isColumn, rfl⟩
  rcases List.mem_flatMap.mp isColumn with ⟨⟨part, number⟩, isPart, inPart⟩
  rcases List.mem_iff_getElem?.mp inPart with ⟨index, found⟩
  have sound := (wellFormed part (List.fst_mem_of_mem_zipIdx isPart)).sourcedColumn found
  refine ⟨sound.1, fun row rowMem => ?_⟩
  have rowInside := (sound.2 row rowMem).2
  have partInside := fits number part (List.mk_mem_zipIdx_iff_getElem?.mp isPart)
  simp only at rowInside ⊢
  omega

theorem wellFormed_stackedColumns {parts : List Pattern} {shift : Nat → Nat} {height count : Nat}
    (wellFormed : ∀ part ∈ parts, part.WellFormed)
    (fits : ∀ number part, parts[number]? = some part → shift number + part.nrow ≤ height)
    (apart : ∀ earlier later part, earlier < later → parts[earlier]? = some part →
      shift earlier + part.nrow ≤ shift later) :
    WellFormed
      ⟨height, (stackedColumns count shift parts).map fun column => column.map Prod.fst⟩ := by
  have sound : ∀ (column : Nat) (numbered : Pattern × Nat), numbered ∈ parts.zipIdx →
      let rows := ((numbered.1.sourcedColumns numbered.2 (shift numbered.2))[column]?.getD []).map
        Prod.fst
      rows.Pairwise (· < ·) ∧
        ∀ row ∈ rows, shift numbered.2 ≤ row ∧ row < shift numbered.2 + numbered.1.nrow := by
    intro column numbered isPart
    rcases found : (numbered.1.sourcedColumns numbered.2 (shift numbered.2))[column]? with
      _ | entries
    · simp
    · exact (wellFormed _ (List.fst_mem_of_mem_zipIdx isPart)).sourcedColumn found
  intro column member
  rcases List.mem_map.mp member with ⟨_, isColumn, rfl⟩
  rcases List.mem_map.mp isColumn with ⟨index, _, rfl⟩
  rw [List.map_flatMap]
  constructor
  · -- Rows ascend in each part, and parts stand one below the other.
    rw [List.pairwise_flatMap]
    refine ⟨fun numbered isPart => (sound index numbered isPart).1, ?_⟩
    have ordered : parts.zipIdx.Pairwise fun earlier later => earlier.2 < later.2 := by
      have ascending : (parts.zipIdx.map Prod.snd).Pairwise (· < ·) := by
        rw [List.zipIdx_map_snd]
        exact List.pairwise_lt_range'
      rwa [List.pairwise_map] at ascending
    refine ordered.imp_of_mem ?_
    intro earlier later earlierMem laterMem less row rowMem row' rowMem'
    have above := (sound index earlier earlierMem).2 row rowMem
    have below := (sound index later laterMem).2 row' rowMem'
    have gap := apart earlier.2 later.2 earlier.1 less
      (List.mk_mem_zipIdx_iff_getElem?.mp earlierMem)
    omega
  · intro row rowMem
    rcases List.mem_flatMap.mp rowMem with ⟨numbered, isPart, inPart⟩
    have inside := (sound index numbered isPart).2 row inPart
    have partInside := fits numbered.2 numbered.1 (List.mk_mem_zipIdx_iff_getElem?.mp isPart)
    simp only
    omega

/-- What concatenation does: the shape of the result, and where its entries come from. -/
structure Concatenates (kind : ConcatKind) (parts : List Pattern) (pattern : Pattern)
    (sources : List PartEntry) : Prop where
  aligned : kind.Aligned (parts.map nrow) (parts.map ncol)
  nrow_eq : pattern.nrow = kind.height (parts.map nrow)
  ncol_eq : pattern.ncol = kind.width (parts.map ncol)
  wellFormed : pattern.WellFormed
  routes : Routes (concatOrigin kind parts) pattern sources

theorem length_besideColumns (shift : Nat → Nat) (parts : List Pattern) :
    (besideColumns shift parts).length = total (parts.map ncol) := by
  simp only [besideColumns, List.length_flatMap, length_sourcedColumns, map_ncol_zipIdx]
  rfl

/-- The size that parts share, if a search for a part of another size fails. -/
theorem eq_of_find?_eq_none {parts : List Pattern} {measure : Pattern → Nat}
    (none : (parts.find? fun part =>
      measure part ≠ (parts.head?.map measure).getD 0) = none) :
    (parts.head?.map measure).getD 0 = (parts.map measure).headD 0 ∧
      ∀ part ∈ parts, measure part = (parts.map measure).headD 0 := by
  have head : (parts.head?.map measure).getD 0 = (parts.map measure).headD 0 := by
    cases parts <;> rfl
  refine ⟨head, fun part member => ?_⟩
  have same := List.find?_eq_none.mp none part member
  simp only [decide_eq_true_eq, ne_eq, not_not] at same
  rw [same, head]

section Concatenates

variable {parts : List Pattern} (wellFormed : ∀ part ∈ parts, part.WellFormed)
  {combined : Pattern × List PartEntry}
include wellFormed

theorem horzcat_concatenates (derived : horzcat parts = .ok combined) :
    Concatenates .horizontal parts combined.1 combined.2 := by
  rw [horzcat] at derived
  split at derived
  · cases derived
  · rename_i notFound
    rcases eq_of_find?_eq_none notFound with ⟨head, same⟩
    change Except.ok (ofSourced ((parts.head?.map nrow).getD 0)
      (besideColumns (fun _ => 0) parts)) = .ok combined at derived
    cases derived
    have fits : ∀ (number : Nat) (part : Pattern), parts[number]? = some part →
        0 + part.nrow ≤ (parts.head?.map nrow).getD 0 := by
      intro number part found
      have height := same part (List.mem_of_getElem? found)
      omega
    refine ⟨?_, head, ?_, wellFormed_besideColumns wellFormed fits, routes_of_columns ?_⟩
    · intro rows member
      rcases List.mem_map.mp member with ⟨part, isPart, rfl⟩
      exact same part isPart
    · exact (List.length_map _).trans (length_besideColumns (fun _ => 0) parts)
    · intro row column source
      refine mem_besideColumns.trans ?_
      simp only [concatOrigin, ConcatKind.rowShift, ConcatKind.columnShift, Prod.mk.injEq]

theorem vertcat_concatenates (derived : vertcat parts = .ok combined) :
    Concatenates .vertical parts combined.1 combined.2 := by
  rw [vertcat] at derived
  split at derived
  · cases derived
  · rename_i notFound
    rcases eq_of_find?_eq_none notFound with ⟨head, same⟩
    rcases bind_eq_ok.mp derived with ⟨_, _, returned⟩
    have columns : (List.range ((parts.head?.map ncol).getD 0)).map (fun column =>
        ((withShifts parts).map fun shifted =>
          shifted.1.sourcedColumns shifted.2.1 shifted.2.2).flatMap fun columns =>
            columns[column]?.getD []) =
        stackedColumns ((parts.map ncol).headD 0)
          (fun number => total ((parts.map nrow).take number)) parts := by
      simp only [stackedColumns, head, withShifts, List.map_map, List.flatMap_map, List.map_take,
        Function.comp_def]
    cases (congrArg (fun columns => Except.ok (ofSourced _ columns)) columns).symm.trans returned
    refine ⟨?_, rfl, ?_, wellFormed_stackedColumns wellFormed ?_ ?_, routes_of_columns ?_⟩
    · intro columns member
      rcases List.mem_map.mp member with ⟨part, isPart, rfl⟩
      exact same part isPart
    · simp [ofSourced, ncol, stackedColumns, ConcatKind.width]
    · exact fun number part found => total_take_add_le_total (getElem?_map_of found)
    · exact fun earlier later part less found => total_take_add_le less (getElem?_map_of found)
    · intro row column source
      refine (mem_stackedColumns same).trans ?_
      simp only [concatOrigin, ConcatKind.rowShift, ConcatKind.columnShift, Prod.mk.injEq,
        Nat.zero_add]

theorem diagcat_concatenates (derived : diagcat parts = .ok combined) :
    Concatenates .diagonal parts combined.1 combined.2 := by
  rcases bind_eq_ok.mp derived with ⟨_, _, returned⟩
  have columns : ((withShifts parts).flatMap fun shifted =>
      shifted.1.sourcedColumns shifted.2.1 shifted.2.2) =
      besideColumns (fun number => total ((parts.map nrow).take number)) parts := by
    simp only [besideColumns, withShifts, List.flatMap_map, List.map_take]
  cases (congrArg (fun columns => Except.ok (ofSourced _ columns)) columns).symm.trans returned
  refine ⟨trivial, rfl, ?_, wellFormed_besideColumns wellFormed ?_, routes_of_columns ?_⟩
  · exact (List.length_map _).trans (length_besideColumns _ parts)
  · exact fun number part found => total_take_add_le_total (getElem?_map_of found)
  · intro row column source
    refine mem_besideColumns.trans ?_
    simp only [concatOrigin, ConcatKind.rowShift, ConcatKind.columnShift, Prod.mk.injEq]

omit wellFormed in
theorem concat_concatenates (derived : concat kind parts = .ok combined)
    (wellFormed : ∀ part ∈ parts, part.WellFormed) :
    Concatenates kind parts combined.1 combined.2 := by
  cases kind with
  | horizontal => exact horzcat_concatenates wellFormed derived
  | vertical => exact vertcat_concatenates wellFormed derived
  | diagonal => exact diagcat_concatenates wellFormed derived

end Concatenates

end Pattern

end Autodiff
