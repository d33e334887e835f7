import Autodiff.Pattern.Coloring
import Autodiff.Proofs.Pattern.Representation
import Mathlib.Algebra.Group.Nat.Defs
import Mathlib.Data.List.Perm.Subperm
import Mathlib.Order.Bounds.Basic

/-!
# First-fit colorings

The color of a line is the least that no earlier line has which it meets. Lines that meet, columns with a
common row or rows with a common column, therefore get different colors, and no color is left out. That
stamps are never cleared does no harm, because the stamp that counts is the one of the line being colored.
-/

namespace Autodiff.Pattern

/-! ## Stamps -/

/-- The line whose stamp a color bears. -/
def stampOf? (stamps : Array (Option Nat)) (color : Nat) : Option Nat :=
  stamps[color]?.join

theorem stampOf?_stamp (line : Nat) (stamps : Array (Option Nat)) (color other : Nat) :
    stampOf? (stamp line stamps color) other =
      if color = other then some line else stampOf? stamps other := by
  unfold stampOf? stamp Array.rightpad
  rw [Array.getElem?_setIfInBounds]
  by_cases same : color = other
  · have room : color < (stamps ++ Array.replicate (color + 1 - stamps.size) none).size := by
      simp only [Array.size_append, Array.size_replicate]
      omega
    simp only [if_pos same, if_pos room]
    rfl
  · rw [if_neg same, if_neg same, Array.getElem?_append]
    split
    · rfl
    · -- The stamps that are filled in are blank.
      rw [Array.getElem?_replicate, Array.getElem?_eq_none (by omega)]
      split <;> rfl

theorem stampOf?_foldl (line : Nat) (taken : List Nat) (stamps : Array (Option Nat)) (color : Nat) :
    stampOf? (taken.foldl (stamp line) stamps) color =
      if color ∈ taken then some line else stampOf? stamps color := by
  induction taken generalizing stamps with
  | nil => simp
  | cons first taken ih =>
      rw [List.foldl_cons, ih, stampOf?_stamp]
      by_cases later : color ∈ taken
      · simp [later]
      · simp [later, eq_comm]

/-- The first color without the stamp of a line is found, also if every color so far bears it. -/
theorem isLeast_findIdx (stamps : Array (Option Nat)) (line : Nat) :
    IsLeast {color | stampOf? stamps color ≠ some line} (stamps.findIdx (· != some line)) := by
  constructor
  · simp only [Set.mem_ofPred_eq, stampOf?]
    by_cases inside : stamps.findIdx (· != some line) < stamps.size
    · have differs := Array.findIdx_getElem (w := inside)
      rw [Array.getElem?_eq_getElem inside, Option.join_some]
      simpa using differs
    · rw [Array.getElem?_eq_none (by omega)]
      exact nofun
  · intro color unstamped
    by_contra less
    rw [Nat.not_le] at less
    have inside := Nat.lt_of_lt_of_le less Array.findIdx_le_size
    have same := Array.not_of_lt_findIdx less
    apply unstamped
    rw [stampOf?, Array.getElem?_eq_getElem inside, Option.join_some]
    simpa using same

/-! ## Coloring line after line -/

variable {meets : Nat → Nat → Prop}

/-- The colors that a line may have, given the colors of the lines before it. -/
def Free (meets : Nat → Nat → Prop) (colors : List Nat) (line : Nat) : Set Nat :=
  {color | ∀ earlier < line, meets line earlier → colors[earlier]? ≠ some color}

/-- The lines before a given one are colored; every color below the count is in use, and colors bear the
stamps of these lines only. -/
structure ColoringState.Proceeds (state : ColoringState) (meets : Nat → Nat → Prop) (line : Nat) : Prop where
  length_eq : state.colors.toList.length = line
  least : ∀ ⦃earlier color⦄, state.colors.toList[earlier]? = some color →
    IsLeast (Free meets state.colors.toList earlier) color
  lt_count : ∀ color ∈ state.colors.toList, color < state.count
  used : ∀ color < state.count, color ∈ state.colors.toList
  stamped : ∀ ⦃color earlier⦄, stampOf? state.stamps color = some earlier → earlier < line

/-- Later colors do not matter to what is free. -/
theorem free_append {colors : List Nat} {line : Nat} (colored : line ≤ colors.length) (color : Nat) :
    Free meets (colors ++ [color]) line = Free meets colors line := by
  ext other
  have before : ∀ earlier < line, (colors ++ [color])[earlier]? = colors[earlier]? :=
    fun earlier less => List.getElem?_append_left (Nat.lt_of_lt_of_le less colored)
  constructor
  · exact fun free earlier less meet => before earlier less ▸ free earlier less meet
  · exact fun free earlier less meet => (before earlier less).symm ▸ free earlier less meet

variable {members back : Nat → List Nat} {state : ColoringState} {line : Nat}

theorem mem_takenColors {colors : Array Nat} {color : Nat} :
    color ∈ takenColors members back colors line ↔
      ∃ other ∈ (members line).flatMap back, colors.toList[other]? = some color := by
  simp only [takenColors, List.mem_filterMap, Array.getElem?_toList]

/-- What is stamped for a line is what it must not have; older stamps are not the one that is looked for. -/
theorem ColoringState.Proceeds.free_eq (proceeds : state.Proceeds meets line)
    (listed : ∀ other, other ∈ (members line).flatMap back ↔ meets line other) :
    Free meets state.colors.toList line = {color | stampOf? ((takenColors members back state.colors line).foldl
      (stamp line) state.stamps) color ≠ some line} := by
  ext color
  have old : stampOf? state.stamps color ≠ some line :=
    fun stamped => Nat.lt_irrefl line (proceeds.stamped stamped)
  simp only [Free, Set.mem_ofPred_eq, stampOf?_foldl]
  split
  · rename_i taken
    rcases mem_takenColors.mp taken with ⟨other, meet, found⟩
    refine iff_of_false (fun free => free other ?_ ((listed other).mp meet) found) (by simp)
    exact proceeds.length_eq ▸ (List.getElem?_eq_some_iff.mp found).1
  · rename_i untaken
    refine iff_of_true (fun earlier _ meet found => untaken ?_) old
    exact mem_takenColors.mpr ⟨earlier, (listed earlier).mpr meet, found⟩

theorem ColoringState.Proceeds.push (proceeds : state.Proceeds meets line) {color : Nat}
    (least : IsLeast (Free meets state.colors.toList line) color) {stamps : Array (Option Nat)}
    (stamped : ∀ ⦃color earlier⦄, stampOf? stamps color = some earlier → earlier < line + 1) :
    ColoringState.Proceeds ⟨state.colors.push color, stamps, max state.count (color + 1)⟩ meets (line + 1) := by
  have length := proceeds.length_eq
  refine ⟨by simp [length], ?_, ?_, ?_, stamped⟩
  · intro earlier other found
    simp only [Array.toList_push] at found ⊢
    have inside := (List.getElem?_eq_some_iff.mp found).1
    rw [List.length_append, List.length_singleton] at inside
    rw [free_append (by omega)]
    by_cases before : earlier < state.colors.toList.length
    · exact proceeds.least (List.getElem?_append_left before ▸ found)
    · have isLast : earlier = line := by omega
      rw [List.getElem?_append_right (by omega), isLast, length, Nat.sub_self] at found
      cases found
      exact isLast ▸ least
  · simp only [Array.toList_push, List.forall_mem_append, List.forall_mem_singleton]
    refine ⟨fun other before => ?_, Nat.le_max_right ..⟩
    exact Nat.lt_of_lt_of_le (proceeds.lt_count other before) (Nat.le_max_left ..)
  · intro other less
    simp only [Array.toList_push, List.mem_append, List.mem_singleton]
    by_contra unused
    rw [not_or] at unused
    -- A color that no earlier line has is free, so the new color is not above it.
    have free : other ∈ Free meets state.colors.toList line :=
      fun earlier _ _ found => unused.1 (List.mem_of_getElem? found)
    have atLeast := least.2 free
    have notBefore : ¬other < state.count := fun before => unused.1 (proceeds.used other before)
    have distinct := unused.2
    simp only at less
    omega

theorem ColoringState.Proceeds.step (proceeds : state.Proceeds meets line)
    (listed : ∀ other, other ∈ (members line).flatMap back ↔ meets line other) :
    (colorNext members back state line).Proceeds meets (line + 1) := by
  refine proceeds.push (proceeds.free_eq listed ▸ isLeast_findIdx _ line) ?_
  intro color earlier found
  rw [stampOf?_foldl] at found
  split at found
  · cases found
    exact Nat.lt_succ_self line
  · exact Nat.lt_succ_of_lt (proceeds.stamped found)

/-! ## Proper colorings -/

/-- Every line has a color; lines that meet have different colors; the colors in use are those below the
count; and each line has the least color that no earlier line has which it meets. -/
structure Coloring.IsFirstFit (coloring : Coloring) (lines : Nat) (meets : Nat → Nat → Prop) : Prop where
  length_eq : coloring.colors.length = lines
  proper : ∀ ⦃first second color : Nat⦄, first ≠ second → meets first second →
    coloring.colors[first]? = some color → coloring.colors[second]? ≠ some color
  lt_count : ∀ color ∈ coloring.colors, color < coloring.count
  used : ∀ color < coloring.count, color ∈ coloring.colors
  least : ∀ ⦃line color : Nat⦄, coloring.colors[line]? = some color →
    IsLeast {free | ∀ earlier < line, meets line earlier → coloring.colors[earlier]? ≠ some free} color

theorem isFirstFit_greedyColoring {count : Nat}
    (listed : ∀ line < count, ∀ other, other ∈ (members line).flatMap back ↔ meets line other)
    (symmetric : ∀ ⦃first second⦄, meets first second → meets second first) :
    (greedyColoring count members back).IsFirstFit count meets := by
  have proceeds : ((List.range count).foldl (colorNext members back) {}).Proceeds meets count := by
    induction count with
    | zero => exact ⟨rfl, by simp, by simp, by simp, by simp [stampOf?]⟩
    | succ count ih =>
        rw [List.range_succ, List.foldl_append]
        have before := ih fun line less => listed line (Nat.lt_succ_of_lt less)
        exact before.step (listed count (Nat.lt_succ_self count))
  refine ⟨proceeds.length_eq, ?_, proceeds.lt_count, proceeds.used, proceeds.least⟩
  intro first second color different meet firstFound secondFound
  rcases Nat.lt_or_gt_of_ne different with before | after
  · exact (proceeds.least secondFound).1 first before (symmetric meet) firstFound
  · exact (proceeds.least firstFound).1 second after meet secondFound

/-- Every line has a color, there are no more colors than lines, and among the stored positions of a line
across them there is at most one of a color. -/
structure Coloring.Separates (coloring : Coloring) (lines : Nat) (stores : Nat → Nat → Prop) :
    Prop where
  length_eq : coloring.colors.length = lines
  lt_count : ∀ color ∈ coloring.colors, color < coloring.count
  count_le : coloring.count ≤ lines
  eq_of_stores : ∀ {across first second color : Nat}, stores across first → stores across second →
    coloring.colors[first]? = some color → coloring.colors[second]? = some color → first = second

/-- Two lines have a stored position in a common line across them. -/
def Meets (stores : Nat → Nat → Prop) (first second : Nat) : Prop :=
  ∃ across, stores across first ∧ stores across second

theorem Coloring.IsFirstFit.separates {coloring : Coloring} {lines : Nat} {stores : Nat → Nat → Prop}
    (firstFit : coloring.IsFirstFit lines (Meets stores)) : coloring.Separates lines stores := by
  refine ⟨firstFit.length_eq, firstFit.lt_count, ?_, ?_⟩
  · have inUse : List.range coloring.count ⊆ coloring.colors :=
      fun color below => firstFit.used color (List.mem_range.mp below)
    have few := (List.subperm_of_subset List.nodup_range inUse).length_le
    rwa [List.length_range, firstFit.length_eq] at few
  · intro across first second color firstStored secondStored firstFound secondFound
    by_contra different
    exact firstFit.proper different ⟨across, firstStored, secondStored⟩ firstFound secondFound

theorem Coloring.Separates.count_eq_zero {coloring : Coloring} {lines : Nat} {stores : Nat → Nat → Prop}
    (separates : coloring.Separates lines stores) : coloring.count = 0 ↔ lines = 0 := by
  constructor
  · intro none
    rw [← separates.length_eq, List.length_eq_zero_iff, List.eq_nil_iff_forall_not_mem]
    intro color member
    have below := separates.lt_count color member
    omega
  · intro none
    have few := separates.count_le
    omega

theorem mem_getD_columns {pattern : Pattern} {row column : Nat} :
    row ∈ pattern.columns.toArray[column]?.getD [] ↔ (row, column) ∈ pattern.positions := by
  rw [mem_positions, List.getElem?_toArray]
  cases pattern.columns[column]? <;> simp

namespace Represents

variable {pattern : Pattern} {shape : Nat × Nat} {stores : Nat → Nat → Prop}
  (represents : pattern.Represents shape stores)
include represents

/-- Coloring columns can only fail for want of a buffer. -/
theorem firstFit_columnColoring :
    Ends (fun cause => cause = .violation .sizeOverflow ∧ ¬shape.1 + 1 ≤ maxBuffer)
      (fun coloring => coloring.IsFirstFit shape.2 (Meets stores)) pattern.columnColoring := by
  rw [columnColoring]
  cases derived : pattern.transpose with
  | ok transposed =>
      rw [← represents.ncol_eq]
      apply isFirstFit_greedyColoring
      · intro line _ other
        have across := represents.transpose derived
        simp only [List.mem_flatMap, mem_getD_columns, represents.mem_iff, across.mem_iff]
        exact Iff.rfl
      · rintro first second ⟨across, firstStored, secondStored⟩
        exact ⟨across, secondStored, firstStored⟩
  | error cause =>
      rw [Pattern.transpose, requireBuffer, represents.nrow_eq] at derived
      split at derived
      · cases derived
      · rename_i exceeds
        cases derived
        exact ⟨rfl, exceeds⟩

theorem firstFit_rowColoring :
    Ends (fun cause => cause = .violation .sizeOverflow ∧
        ¬(shape.1 + 1 ≤ maxBuffer ∧ shape.2 + 1 ≤ maxBuffer))
      (fun coloring => coloring.IsFirstFit shape.1 (Meets fun column row => stores row column))
      pattern.rowColoring := by
  rw [rowColoring]
  cases derived : pattern.transpose with
  | ok transposed =>
      refine (represents.transpose derived).firstFit_columnColoring.mono (fun cause failed => ?_) fun _ => id
      exact ⟨failed.1, fun fits => failed.2 fits.2⟩
  | error cause =>
      have failed := represents.firstFit_columnColoring
      rw [columnColoring, derived] at failed
      exact ⟨failed.1, fun fits => failed.2 fits.1⟩

theorem exists_columnColoring (fits : shape.1 + 1 ≤ maxBuffer) :
    ∃ coloring, pattern.columnColoring = .ok coloring ∧ coloring.Separates shape.2 stores := by
  rcases (represents.firstFit_columnColoring.mono (fun _ failed => failed.2 fits) fun _ => id).exists_ok with
    ⟨coloring, firstFit, colored⟩
  exact ⟨coloring, colored, firstFit.separates⟩

theorem exists_rowColoring (fits : shape.1 + 1 ≤ maxBuffer) (transposedFits : shape.2 + 1 ≤ maxBuffer) :
    ∃ coloring, pattern.rowColoring = .ok coloring ∧
      coloring.Separates shape.1 fun column row => stores row column := by
  rcases (represents.firstFit_rowColoring.mono (fun _ failed => failed.2 ⟨fits, transposedFits⟩)
    fun _ => id).exists_ok with ⟨coloring, firstFit, colored⟩
  exact ⟨coloring, colored, firstFit.separates⟩

theorem ends_columnColoring :
    Ends (· = .violation .sizeOverflow) (fun coloring => coloring.Separates shape.2 stores)
      pattern.columnColoring :=
  represents.firstFit_columnColoring.mono (fun _ failed => failed.1) fun _ firstFit => firstFit.separates

theorem ends_rowColoring :
    Ends (· = .violation .sizeOverflow)
      (fun coloring => coloring.Separates shape.1 fun column row => stores row column)
      pattern.rowColoring :=
  represents.firstFit_rowColoring.mono (fun _ failed => failed.1) fun _ firstFit => firstFit.separates

end Represents

/-- Columns and rows of a well-formed pattern are colored first-fit, where two columns meet if they store a
common row, and two rows if a common column stores them. Only the buffers of the transposed pattern, one
pointer for every row and for every column, bound the size. -/
theorem WellFormed.colorings_firstFit {pattern : Pattern} (wellFormed : pattern.WellFormed)
    (fewRows : pattern.nrow < 2 ^ 32 - 1) (fewColumns : pattern.ncol < 2 ^ 32 - 1) :
    (∃ coloring, pattern.columnColoring = .ok coloring ∧ coloring.IsFirstFit pattern.ncol fun first second =>
      ∃ row, (row, first) ∈ pattern.positions ∧ (row, second) ∈ pattern.positions) ∧
    ∃ coloring, pattern.rowColoring = .ok coloring ∧ coloring.IsFirstFit pattern.nrow fun first second =>
      ∃ column, (first, column) ∈ pattern.positions ∧ (second, column) ∈ pattern.positions := by
  have room : 2 ^ 32 ≤ maxBuffer := by decide
  have represents := wellFormed.represents_positions
  have rowsFit : pattern.nrow + 1 ≤ maxBuffer := by omega
  have columnsFit : pattern.ncol + 1 ≤ maxBuffer := by omega
  constructor
  · rcases (represents.firstFit_columnColoring.mono (fun _ failed => failed.2 rowsFit) fun _ => id).exists_ok with
      ⟨coloring, firstFit, colored⟩
    exact ⟨coloring, colored, firstFit⟩
  · rcases (represents.firstFit_rowColoring.mono (fun _ failed => failed.2 ⟨rowsFit, columnsFit⟩)
      fun _ => id).exists_ok with ⟨coloring, firstFit, colored⟩
    exact ⟨coloring, colored, firstFit⟩

/-- The first row of this pattern meets every column, so that each column needs a color of its own. -/
theorem arrow_colorings_firstFit :
    let arrow : Pattern := ⟨3, [[0], [0, 1], [0, 2]]⟩
    arrow.WellFormed ∧ arrow.columnColoring = .ok ⟨[0, 1, 2], 3⟩ ∧ arrow.rowColoring = .ok ⟨[0, 1, 1], 2⟩ ∧
      (Coloring.mk [0, 1, 1] 2).IsFirstFit 3 fun first second =>
        ∃ column, (first, column) ∈ arrow.positions ∧ (second, column) ∈ arrow.positions := by
  intro arrow
  have wellFormed : arrow.WellFormed := by decide
  have columns : arrow.columnColoring = .ok ⟨[0, 1, 2], 3⟩ := by decide +kernel
  have rows : arrow.rowColoring = .ok ⟨[0, 1, 1], 2⟩ := by decide +kernel
  rcases wellFormed.colorings_firstFit (by decide) (by decide) with ⟨-, coloring, colored, firstFit⟩
  cases Except.ok.inj (rows.symm.trans colored)
  exact ⟨wellFormed, columns, rows, firstFit⟩

end Autodiff.Pattern
