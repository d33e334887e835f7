import Mathlib.Data.List.Induction
import Mathlib.Tactic.SplitIfs
import Mathlib.Tactic.Push
import Autodiff.Pattern.Basic
import Autodiff.Proofs.Outcome

/-!
# Reading compressed patterns

A compressed form is read column by column: neighbouring pointers cut a column out of the rows, and
its checks run before the next column is cut. Each column passes, is refused with a flaw, or reaches
beyond the rows. Only the ends of the pointer list are compared with the number of rows beforehand,
so a pointer in between may exceed it; the first column that does not pass decides what happens.
-/

namespace Autodiff

namespace Pattern

def slice (rows : List Nat) (span : Nat × Nat) : List Nat :=
  (rows.drop span.1).take (span.2 - span.1)

/-- Two neighbouring pointers cut a column out of the rows, and it passes its checks. -/
structure Cuts (nrow : Nat) (rows : List Nat) (span : Nat × Nat) : Prop where
  ordered : span.1 ≤ span.2
  inside : span.2 ≤ rows.length
  ascending : (slice rows span).Pairwise (· < ·)
  below : ∀ row ∈ slice rows span, row < nrow

/-- Two neighbouring pointers in the right order, the second beyond the rows. -/
def SpanOverruns (rows : List Nat) (span : Nat × Nat) : Prop :=
  span.1 ≤ span.2 ∧ rows.length < span.2

def spans (pointers : List Nat) : List (Nat × Nat) :=
  pointers.zip pointers.tail

@[simp] theorem spans_cons_cons (start stop : Nat) (pointers : List Nat) :
    spans (start :: stop :: pointers) = (start, stop) :: spans (stop :: pointers) := rfl

theorem Cuts.not_overruns {nrow : Nat} {rows : List Nat} {span : Nat × Nat}
    (cuts : Cuts nrow rows span) : ¬ SpanOverruns rows span :=
  fun overruns => Nat.not_lt.mpr cuts.inside overruns.2

theorem isAscending_iff {rows : List Nat} : isAscending rows = true ↔ rows.Pairwise (· < ·) := by
  rw [← List.isChain_iff_pairwise]
  induction rows with
  | nil => simp [isAscending]
  | cons first rows ih =>
      cases rows with
      | nil => simp [isAscending]
      | cons second rows => simp [isAscending, ih]

/-- In a list that ascends, only the last row has to be compared. -/
theorem getLast?_any_iff {nrow : Nat} {rows : List Nat} (ascending : rows.Pairwise (· < ·)) :
    rows.getLast?.any (nrow ≤ ·) = false ↔ ∀ row ∈ rows, row < nrow := by
  induction rows using List.reverseRecOn with
  | nil => simp
  | append_singleton rows last _ =>
      rw [List.pairwise_append] at ascending
      simp only [List.getLast?_append, List.getLast?_singleton, Option.some_or, Option.any_some,
        decide_eq_false_iff_not, Nat.not_le, List.mem_append, List.mem_singleton]
      constructor
      · rintro below row (member | rfl)
        · exact Nat.lt_trans (ascending.2.2 row member last (by simp)) below
        · exact below
      · intro below
        exact below last (.inr rfl)

section CutColumns

variable {nrow start stop : Nat} {rows pointers : List Nat} {index : Nat}

theorem cutColumns_cons :
    cutColumns nrow rows index (start :: stop :: pointers) =
      if stop < start then .error (.graph (.invalidPattern (.pointerDecreases index)))
      else if rows.length < stop then .error (.violation .rangeOutOfBounds)
      else if !isAscending (slice rows (start, stop)) then
        .error (.graph (.invalidPattern (.rowsUnordered index)))
      else if (slice rows (start, stop)).getLast?.any (nrow ≤ ·) then
        .error (.graph (.invalidPattern (.rowOutOfRange index)))
      else (cutColumns nrow rows (index + 1) (stop :: pointers)).map (slice rows (start, stop) :: ·) := by
  have cut : slice rows (start, stop) = (rows.drop start).take (stop - start) := rfl
  rw [cut]
  simp only [cutColumns, throw_bind]
  split_ifs
  · rfl
  · rfl
  · rfl
  · rfl
  · cases cutColumns nrow rows (index + 1) (stop :: pointers) <;> rfl

theorem cutColumns_of_cuts (cuts : Cuts nrow rows (start, stop)) :
    cutColumns nrow rows index (start :: stop :: pointers) =
      (cutColumns nrow rows (index + 1) (stop :: pointers)).map (slice rows (start, stop) :: ·) := by
  have ascending := isAscending_iff.mpr cuts.ascending
  have below := (getLast?_any_iff cuts.ascending).mpr cuts.below
  rw [cutColumns_cons, if_neg (Nat.not_lt.mpr cuts.ordered), if_neg (Nat.not_lt.mpr cuts.inside)]
  simp [ascending, below]

theorem cutColumns_of_overruns (overruns : SpanOverruns rows (start, stop)) :
    cutColumns nrow rows index (start :: stop :: pointers) =
      .error (.violation .rangeOutOfBounds) := by
  rw [cutColumns_cons, if_neg (Nat.not_lt.mpr overruns.1), if_pos overruns.2]

theorem cutColumns_of_flawed (fails : ¬ Cuts nrow rows (start, stop))
    (inside : ¬ SpanOverruns rows (start, stop)) :
    ∃ flaw, cutColumns nrow rows index (start :: stop :: pointers) =
      .error (.graph (.invalidPattern flaw)) := by
  rw [cutColumns_cons]
  split
  · exact ⟨_, rfl⟩
  next ordered =>
  split
  next beyond => exact absurd ⟨Nat.not_lt.mp ordered, beyond⟩ inside
  next ends =>
  split
  · exact ⟨_, rfl⟩
  next ascending =>
  split
  · exact ⟨_, rfl⟩
  next below =>
  -- every check has passed
  have sorted := isAscending_iff.mp (by simpa using ascending)
  have rowsBelow := (getLast?_any_iff sorted).mp (by simpa using below)
  exact absurd ⟨Nat.not_lt.mp ordered, Nat.not_lt.mp ends, sorted, rowsBelow⟩ fails

end CutColumns

/-- The outcome of cutting, decided by the first pair of pointers that does not pass. -/
theorem cutColumns_outcome (nrow : Nat) (rows : List Nat) (index : Nat) (pointers : List Nat) :
    ((∀ span ∈ spans pointers, Cuts nrow rows span) ∧
        cutColumns nrow rows index pointers = .ok ((spans pointers).map (slice rows))) ∨
      (StopsAt (Cuts nrow rows) (SpanOverruns rows) (spans pointers) ∧
        cutColumns nrow rows index pointers = .error (.violation .rangeOutOfBounds)) ∨
      (StopsAt (Cuts nrow rows)
          (fun span => ¬ Cuts nrow rows span ∧ ¬ SpanOverruns rows span) (spans pointers) ∧
        ∃ flaw, cutColumns nrow rows index pointers = .error (.graph (.invalidPattern flaw))) := by
  induction pointers generalizing index with
  | nil => exact .inl ⟨by simp [spans], rfl⟩
  | cons start pointers ih =>
      cases pointers with
      | nil => exact .inl ⟨by simp [spans], rfl⟩
      | cons stop pointers =>
          simp only [spans_cons_cons, stopsAt_cons, List.forall_mem_cons, List.map_cons]
          by_cases overruns : SpanOverruns rows (start, stop)
          · exact .inr (.inl ⟨.inl overruns, cutColumns_of_overruns overruns⟩)
          by_cases cuts : Cuts nrow rows (start, stop)
          · rw [cutColumns_of_cuts cuts]
            rcases ih (index + 1) with ⟨passed, equal⟩ | ⟨stopped, equal⟩ | ⟨stopped, flaw, equal⟩
            · exact .inl ⟨⟨cuts, passed⟩, by rw [equal]; rfl⟩
            · exact .inr (.inl ⟨.inr ⟨cuts, stopped⟩, by rw [equal]; rfl⟩)
            · exact .inr (.inr ⟨.inr ⟨cuts, stopped⟩, flaw, by rw [equal]; rfl⟩)
          · exact .inr (.inr ⟨.inl ⟨cuts, overruns⟩, cutColumns_of_flawed cuts overruns⟩)

/-- The pointers have the length and the ends of a compressed form. -/
def Framed (ncol : Nat) (pointers rows : List Nat) : Prop :=
  pointers.length = ncol + 1 ∧ pointers.head? = some 0 ∧ pointers.getLast? = some rows.length

def Compressed (nrow ncol : Nat) (pointers rows : List Nat) : Prop :=
  ncol < maxWord ∧ Framed ncol pointers rows ∧ ∀ span ∈ spans pointers, Cuts nrow rows span

/-- Reading the form leaves the range of machine words or the rows: the number of pointers is not a
word, or the pointers are framed and the first column that fails reaches beyond the rows. -/
def Overruns (nrow ncol : Nat) (pointers rows : List Nat) : Prop :=
  maxWord ≤ ncol ∨
    Framed ncol pointers rows ∧ StopsAt (Cuts nrow rows) (SpanOverruns rows) (spans pointers)

section OfCompressed

variable {nrow ncol : Nat} {pointers rows : List Nat}

theorem Compressed.not_overruns (compressed : Compressed nrow ncol pointers rows) :
    ¬ Overruns nrow ncol pointers rows := by
  obtain ⟨word, -, passed⟩ := compressed
  rintro (long | ⟨-, stopped⟩)
  · exact Nat.not_lt.mpr long word
  · exact not_stopsAt_of_forall passed (fun _ _ cuts => cuts.not_overruns) stopped

theorem Overruns.exists_pointer (overruns : Overruns nrow ncol pointers rows) :
    maxWord ≤ ncol ∨ ∃ pointer ∈ pointers, rows.length < pointer := by
  rcases overruns with long | ⟨-, stopped⟩
  · exact .inl long
  · obtain ⟨span, member, -, beyond⟩ := stopped.exists_mem
    exact .inr ⟨span.2, List.mem_of_mem_tail (List.of_mem_zip member).2, beyond⟩

theorem ofCompressed_outcome (nrow ncol : Nat) (pointers rows : List Nat) :
    (Compressed nrow ncol pointers rows ∧
        ofCompressed nrow ncol pointers rows = .ok ⟨nrow, (spans pointers).map (slice rows)⟩) ∨
      (Overruns nrow ncol pointers rows ∧
        ∃ cause, ofCompressed nrow ncol pointers rows = .error (.violation cause)) ∨
      (¬ Compressed nrow ncol pointers rows ∧ ¬ Overruns nrow ncol pointers rows ∧
        ∃ flaw, ofCompressed nrow ncol pointers rows = .error (.graph (.invalidPattern flaw))) := by
  unfold ofCompressed
  by_cases word : ncol + 1 ≤ maxWord
  swap
  · rw [requireWord, if_neg word]
    exact .inr (.inl ⟨.inl (by omega), .sizeOverflow, rfl⟩)
  rw [requireWord, if_pos word, ok_bind]
  by_cases count : pointers.length = ncol + 1
  swap
  · rw [if_pos count]
    refine .inr (.inr ⟨fun compressed => count compressed.2.1.1, ?_, _, rfl⟩)
    rintro (long | ⟨framed, -⟩)
    · omega
    · exact count framed.1
  rw [if_neg (not_not.mpr count)]
  by_cases ends : pointers.head? ≠ some 0 ∨ pointers.getLast? ≠ some rows.length
  · have unframed : ¬ Framed ncol pointers rows := by
      rintro ⟨-, starts, stops⟩
      exact ends.elim (· starts) (· stops)
    rw [if_pos ends]
    refine .inr (.inr ⟨fun compressed => unframed compressed.2.1, ?_, _, rfl⟩)
    rintro (long | ⟨framed, -⟩)
    · omega
    · exact unframed framed
  rw [if_neg ends]
  have framed : Framed ncol pointers rows := by
    push Not at ends
    exact ⟨count, ends⟩
  rcases cutColumns_outcome nrow rows 0 pointers with
    ⟨passed, equal⟩ | ⟨stopped, equal⟩ | ⟨stopped, flaw, equal⟩
  · exact .inl ⟨⟨by omega, framed, passed⟩, by rw [equal]; rfl⟩
  · exact .inr (.inl ⟨.inr ⟨framed, stopped⟩, .rangeOutOfBounds, by rw [equal]; rfl⟩)
  · have flawed : ¬ ∀ span ∈ spans pointers, Cuts nrow rows span := fun passed =>
      not_stopsAt_of_forall passed (fun _ _ cuts fails => fails.1 cuts) stopped
    have inside := stopped.not_stopsAt (fun _ fails => fails.1)
      (fun _ overruns cuts => cuts.not_overruns overruns) (fun _ fails => fails.2)
    refine .inr (.inr ⟨fun compressed => flawed compressed.2.2, ?_, flaw, by rw [equal]; rfl⟩)
    rintro (long | ⟨-, overruns⟩)
    · omega
    · exact inside overruns

theorem ofCompressed_eq_ok_iff :
    (∃ pattern, ofCompressed nrow ncol pointers rows = .ok pattern) ↔
      Compressed nrow ncol pointers rows := by
  rcases ofCompressed_outcome nrow ncol pointers rows with
    ⟨compressed, equal⟩ | ⟨overruns, cause, equal⟩ | ⟨fails, -, flaw, equal⟩
  · exact ⟨fun _ => compressed, fun _ => ⟨_, equal⟩⟩
  · rw [equal]
    exact ⟨nofun, fun compressed => absurd overruns compressed.not_overruns⟩
  · rw [equal]
    exact ⟨nofun, fun compressed => absurd compressed fails⟩

theorem ofCompressed_violation_iff :
    (∃ cause, ofCompressed nrow ncol pointers rows = .error (.violation cause)) ↔
      Overruns nrow ncol pointers rows := by
  rcases ofCompressed_outcome nrow ncol pointers rows with
    ⟨compressed, equal⟩ | ⟨overruns, cause, equal⟩ | ⟨-, inside, flaw, equal⟩
  · rw [equal]
    exact ⟨nofun, fun overruns => absurd overruns compressed.not_overruns⟩
  · exact ⟨fun _ => overruns, fun _ => ⟨cause, equal⟩⟩
  · rw [equal]
    exact ⟨nofun, fun overruns => absurd overruns inside⟩

end OfCompressed

/-! ## Writing and reading back -/

theorem offsets_eq_cons (start : Nat) (columns : List (List Nat)) :
    ∃ pointers, offsets start columns = start :: pointers := by
  cases columns with
  | nil => exact ⟨[], rfl⟩
  | cons column columns => exact ⟨offsets (start + column.length) columns, rfl⟩

theorem length_offsets (start : Nat) (columns : List (List Nat)) :
    (offsets start columns).length = columns.length + 1 := by
  induction columns generalizing start with
  | nil => rfl
  | cons column columns ih => simp [offsets, ih]

theorem getLast?_offsets (start : Nat) (columns : List (List Nat)) :
    (offsets start columns).getLast? = some (start + columns.flatten.length) := by
  induction columns generalizing start with
  | nil => rfl
  | cons column columns ih =>
      have last := ih (start + column.length)
      rcases offsets_eq_cons (start + column.length) columns with ⟨pointers, equal⟩
      rw [equal] at last
      simp only [offsets, equal, List.getLast?_cons_cons, last, List.flatten_cons, List.length_append]
      rw [Nat.add_assoc]

theorem offsets_le {start pointer : Nat} {columns : List (List Nat)}
    (member : pointer ∈ offsets start columns) : pointer ≤ start + columns.flatten.length := by
  induction columns generalizing start with
  | nil => simp_all [offsets]
  | cons column columns ih =>
      simp only [List.flatten_cons, List.length_append]
      rcases List.mem_cons.mp member with rfl | later
      · omega
      · have := ih later
        omega

/-- Cutting at the offsets of columns gives them back, whatever stands before them. -/
theorem cutColumns_offsets {nrow : Nat} {columns : List (List Nat)}
    (wellFormed : WellFormed ⟨nrow, columns⟩) (before : List Nat) (index : Nat) :
    cutColumns nrow (before ++ columns.flatten) index (offsets before.length columns) = .ok columns := by
  induction columns generalizing before index with
  | nil => rfl
  | cons column columns ih =>
      have first := wellFormed column (List.mem_cons_self ..)
      have rest : WellFormed ⟨nrow, columns⟩ :=
        fun other member => wellFormed other (List.mem_cons_of_mem _ member)
      have cut : slice (before ++ (column :: columns).flatten)
          (before.length, before.length + column.length) = column := by
        simp [slice]
      have cuts : Cuts nrow (before ++ (column :: columns).flatten)
          (before.length, before.length + column.length) := by
        refine ⟨Nat.le_add_right .., ?_, ?_, ?_⟩
        · simp only [List.flatten_cons, List.length_append]
          omega
        · rw [cut]
          exact first.1
        · rw [cut]
          exact first.2
      have later := ih rest (before ++ column) (index + 1)
      rw [List.length_append, List.append_assoc, ← List.flatten_cons] at later
      rcases offsets_eq_cons (before.length + column.length) columns with ⟨pointers, equal⟩
      rw [equal] at later
      rw [offsets, equal, cutColumns_of_cuts cuts, later, cut]
      rfl

theorem WellFormed.ofCompressed_columnPointers {pattern : Pattern} (wellFormed : pattern.WellFormed)
    (word : pattern.ncol < maxWord) :
    ofCompressed pattern.nrow pattern.ncol pattern.columnPointers pattern.rows = .ok pattern := by
  have count : pattern.columnPointers.length = pattern.ncol + 1 := length_offsets 0 pattern.columns
  have starts : pattern.columnPointers.head? = some 0 := by
    rcases offsets_eq_cons 0 pattern.columns with ⟨pointers, equal⟩
    rw [columnPointers, equal]
    rfl
  have stops : pattern.columnPointers.getLast? = some pattern.rows.length := by
    rw [columnPointers, getLast?_offsets, Nat.zero_add]
    rfl
  have cut : cutColumns pattern.nrow pattern.rows 0 pattern.columnPointers = .ok pattern.columns :=
    cutColumns_offsets wellFormed [] 0
  have room : pattern.ncol + 1 ≤ maxWord := word
  simp only [ofCompressed, requireWord, if_pos room, ok_bind, count, starts, stops, ne_eq,
    not_true_eq_false, or_self, if_false, cut]
  rfl

end Pattern

end Autodiff
