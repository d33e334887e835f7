import Autodiff.Graph.Construct
import Autodiff.Proofs.Outcome
import Autodiff.Proofs.Pattern.Positions

/-!
# Derived patterns of elementwise operations

Which positions the pattern of an elementwise operation stores, for each zero rule and after
broadcasting. Every derived pattern is well formed if the patterns that it comes from are.
-/

namespace Autodiff

variable {nrow ncol : Nat} {rule : ZeroRule} {shape : Nat × Nat}

namespace Pattern

/-! ## Sorted lists without repetition -/

section Sorted

variable {α : Type} [BEq α] [LawfulBEq α]

/-- Erasing repetitions from an ascending list keeps its members and makes it strictly ascending. -/
theorem eraseRepsBy_loop_spec {below : α → α → Prop}
    (antisymmetric : ∀ ⦃first second⦄, below first second → below second first → first = second)
    (first : α) (rest emitted : List α) (ascending : (first :: rest).Pairwise below) :
    ∃ kept, List.eraseRepsBy.loop (· == ·) first rest emitted = emitted.reverse ++ kept ∧
      (∀ element, element ∈ kept ↔ element ∈ first :: rest) ∧
      kept.Pairwise fun earlier later => below earlier later ∧ earlier ≠ later := by
  induction rest generalizing first emitted with
  | nil => exact ⟨[first], by simp [List.eraseRepsBy.loop], by simp, by simp⟩
  | cons second rest ih =>
      rw [List.pairwise_cons] at ascending
      by_cases same : first = second
      · subst same
        rcases ih first emitted ascending.2 with ⟨kept, erased, members, strict⟩
        exact ⟨kept, by simpa [List.eraseRepsBy.loop] using erased, by simp [members], strict⟩
      · rcases ih second (first :: emitted) ascending.2 with ⟨kept, erased, members, strict⟩
        have differ : (first == second) = false := by simpa using same
        refine ⟨first :: kept, ?_, by simp [members], List.pairwise_cons.mpr ⟨?_, strict⟩⟩
        · simpa [List.eraseRepsBy.loop, differ] using erased
        · intro element member
          rw [members] at member
          refine ⟨ascending.1 element member, ?_⟩
          rintro rfl
          -- The same element twice with another one between them.
          have later := (List.mem_cons.mp member).resolve_left same
          exact same (antisymmetric (ascending.1 second (List.mem_cons_self ..))
            ((List.pairwise_cons.mp ascending.2).1 first later))

theorem eraseReps_mergeSort (precedes : α → α → Bool)
    (transitive : ∀ first second third, precedes first second → precedes second third →
      precedes first third)
    (total : ∀ first second, precedes first second || precedes second first)
    (antisymmetric : ∀ ⦃first second⦄, precedes first second → precedes second first →
      first = second) (elements : List α) :
    (∀ element, element ∈ (elements.mergeSort precedes).eraseReps ↔ element ∈ elements) ∧
      (elements.mergeSort precedes).eraseReps.Pairwise fun earlier later =>
        precedes earlier later ∧ earlier ≠ later := by
  have ascending := List.pairwise_mergeSort transitive total elements
  have members : ∀ element, element ∈ elements.mergeSort precedes ↔ element ∈ elements :=
    fun _ => List.mem_mergeSort
  revert ascending members
  cases elements.mergeSort precedes with
  | nil => simp +contextual [List.eraseReps, List.eraseRepsBy]
  | cons first rest =>
      intro ascending members
      rcases eraseRepsBy_loop_spec antisymmetric first rest [] ascending with ⟨kept, erased, same, strict⟩
      rw [List.eraseReps, List.eraseRepsBy, erased]
      exact ⟨fun element => (same element).trans (members element), strict⟩

end Sorted

theorem normalize_spec (rows : List Nat) :
    (∀ row, row ∈ normalize rows ↔ row ∈ rows) ∧ (normalize rows).Pairwise (· < ·) := by
  rcases eraseReps_mergeSort (· ≤ ·) (by simp; omega) (by simp; omega) (by simp; omega) rows with
    ⟨members, ascending⟩
  refine ⟨members, ascending.imp ?_⟩
  simp
  omega

/-- Positions that are sorted and freed from repetitions are in storage order. -/
theorem eraseReps_precedes (pairs : List (Nat × Nat)) :
    (∀ pair, pair ∈ (pairs.mergeSort precedes).eraseReps ↔ pair ∈ pairs) ∧
      (pairs.mergeSort precedes).eraseReps.Pairwise fun earlier later =>
        earlier.2 < later.2 ∨ (earlier.2 = later.2 ∧ earlier.1 < later.1) := by
  rcases eraseReps_mergeSort precedes (by simp [precedes]; omega) (by simp [precedes]; omega)
    (by simp [precedes]; omega) pairs with ⟨members, ascending⟩
  refine ⟨members, ascending.imp ?_⟩
  simp [precedes]
  omega

/-! ## Patterns of a given shape -/

theorem represents_full (nrow ncol : Nat) :
    (full nrow ncol).Represents (nrow, ncol) fun row column => row < nrow ∧ column < ncol :=
  represents_range (fun _ _ => List.pairwise_lt_range) (by simp +contextual) fun _ _ => id

theorem represents_blank (nrow ncol : Nat) :
    (blank nrow ncol).Represents (nrow, ncol) fun _ _ => False := by
  have columns : List.replicate ncol [] = (List.range ncol).map fun _ => ([] : List Nat) := by simp
  rw [blank, columns]
  exact represents_range (by simp) (by simp) (by simp)

theorem wellFormed_full (nrow ncol : Nat) : (full nrow ncol).WellFormed :=
  (represents_full nrow ncol).wellFormed

theorem shape_full (nrow ncol : Nat) : (full nrow ncol).shape = (nrow, ncol) :=
  (represents_full nrow ncol).shape_eq

theorem mem_positions_full {row column : Nat} :
    (row, column) ∈ (full nrow ncol).positions ↔ row < nrow ∧ column < ncol :=
  (represents_full nrow ncol).mem_iff row column

theorem wellFormed_blank (nrow ncol : Nat) : (blank nrow ncol).WellFormed :=
  (represents_blank nrow ncol).wellFormed

theorem shape_blank (nrow ncol : Nat) : (blank nrow ncol).shape = (nrow, ncol) :=
  (represents_blank nrow ncol).shape_eq

theorem positions_blank (nrow ncol : Nat) : (blank nrow ncol).positions = [] :=
  List.eq_nil_iff_forall_not_mem.mpr fun _ => ((represents_blank nrow ncol).mem_iff _ _).mp

theorem wellFormed_scalar : scalar.WellFormed := by
  decide

theorem eq_full_of_dense {pattern : Pattern} (derived : dense nrow ncol = .ok pattern) :
    pattern = full nrow ncol := by
  rcases bind_eq_ok.mp derived with ⟨_, _, derived⟩
  rcases bind_eq_ok.mp derived with ⟨_, _, derived⟩
  exact (Except.ok.inj derived).symm

theorem eq_blank_of_empty {pattern : Pattern} (derived : empty nrow ncol = .ok pattern) :
    pattern = blank nrow ncol := by
  rcases bind_eq_ok.mp derived with ⟨_, _, derived⟩
  exact (Except.ok.inj derived).symm

/-! ## Zero rules -/

end Pattern

/-- Whether the result of an operation is stored where its operands are or are not. -/
def ZeroRule.Stores (rule : ZeroRule) (left right : Prop) : Prop :=
  match rule with
  | .union | .preserves => left ∨ right
  | .intersection => left ∧ right
  | .leftOperand => left ∨ ¬right
  | .dense => True

namespace Pattern

/-- Ascending rows that lie in one of two lists, or in both. -/
structure Merges (single : Bool) (left right merged : List Nat) : Prop where
  ascends : merged.Pairwise (· < ·)
  mem_iff : ∀ row, row ∈ merged ↔ if single then row ∈ left ∨ row ∈ right else row ∈ left ∧ row ∈ right

namespace Merges

variable {single : Bool} {first : Nat} {left right merged : List Nat}

theorem symm (merges : Merges single left right merged) : Merges single right left merged := by
  refine ⟨merges.ascends, fun row => (merges.mem_iff row).trans ?_⟩
  rw [or_comm, and_comm]

theorem mem_or_mem (merges : Merges single left right merged) {row : Nat} (member : row ∈ merged) :
    row ∈ left ∨ row ∈ right := by
  have := (merges.mem_iff row).mp member
  grind

variable (merges : Merges single left right merged) (leftAbove : ∀ row ∈ left, first < row)
  (rightAbove : ∀ row ∈ right, first < row)
include merges leftAbove rightAbove

theorem above : ∀ row ∈ merged, first < row := fun row member =>
  (merges.mem_or_mem member).elim (leftAbove row) (rightAbove row)

theorem cons_both : Merges single (first :: left) (first :: right) (first :: merged) := by
  refine ⟨List.pairwise_cons.mpr ⟨merges.above leftAbove rightAbove, merges.ascends⟩, fun row => ?_⟩
  grind [merges.mem_iff row]

theorem cons_left : Merges single (first :: left) right (keepRow single first merged) := by
  cases single with
  | true =>
      refine ⟨List.pairwise_cons.mpr ⟨merges.above leftAbove rightAbove, merges.ascends⟩, fun row => ?_⟩
      grind [keepRow, merges.mem_iff row]
  | false =>
      refine ⟨merges.ascends, fun row => ?_⟩
      grind [keepRow, merges.mem_iff row]

end Merges

/-- A row that is behind on its side is behind all later rows of the other side. -/
theorem forall_lt_of_ascends {first second : Nat} {right : List Nat} (ascends : (second :: right).Pairwise (· < ·))
    (less : first < second) : ∀ row ∈ second :: right, first < row := by
  grind [List.pairwise_cons]

theorem merges_mergeRows (single : Bool) {left right : List Nat} (leftAscends : left.Pairwise (· < ·))
    (rightAscends : right.Pairwise (· < ·)) : Merges single left right (mergeRows single left right) := by
  induction left generalizing right with
  | nil =>
      cases single with
      | true => exact ⟨rightAscends, by simp [mergeRows]⟩
      | false => exact ⟨.nil, by simp [mergeRows]⟩
  | cons first left ih =>
      rcases List.pairwise_cons.mp leftAscends with ⟨leftAbove, leftRest⟩
      induction right with
      | nil => exact (ih leftRest rightAscends).cons_left leftAbove (by simp)
      | cons second right ihRight =>
          rcases List.pairwise_cons.mp rightAscends with ⟨rightAbove, rightRest⟩
          rw [mergeRows, mergeFirst]
          split
          · rename_i same
            subst same
            exact (ih leftRest rightRest).cons_both leftAbove rightAbove
          · split
            · rename_i less
              exact (ih leftRest rightAscends).cons_left leftAbove (forall_lt_of_ascends rightAscends less)
            · have less : second < first := by omega
              exact ((ihRight rightRest).symm.cons_left rightAbove (forall_lt_of_ascends leftAscends less)).symm

/-- What merging two patterns of one shape stores. -/
theorem Represents.merge {left right : Pattern} {leftStores rightStores : Nat → Nat → Prop}
    (leftRepresents : left.Represents shape leftStores) (rightRepresents : right.Represents shape rightStores)
    (single : Bool) : ∃ pattern, Pattern.merge single left right = .ok pattern ∧ pattern.Represents shape
      fun row column => if single then leftStores row column ∨ rightStores row column
        else leftStores row column ∧ rightStores row column := by
  have sameShape : left.shape = right.shape := leftRepresents.shape_eq.trans rightRepresents.shape_eq.symm
  obtain ⟨sameRows, sameCount⟩ : left.nrow = right.nrow ∧ left.columns.length = right.columns.length :=
    Prod.mk.inj sameShape
  have merges : ∀ {column : Nat} {first second : List Nat}, left.columns[column]? = some first →
      right.columns[column]? = some second → Merges single first second (mergeRows single first second) :=
    fun isFirst isSecond => merges_mergeRows single (leftRepresents.wellFormed _ (List.mem_of_getElem? isFirst)).1
      (rightRepresents.wellFormed _ (List.mem_of_getElem? isSecond)).1
  refine ⟨_, if_pos sameShape, ?_, ?_, fun row column => ?_⟩
  · intro column member
    rcases List.mem_iff_getElem?.mp member with ⟨index, found⟩
    rcases List.getElem?_zipWith_eq_some.mp found with ⟨first, second, isFirst, isSecond, rfl⟩
    refine ⟨(merges isFirst isSecond).ascends, fun row isRow => ?_⟩
    rcases (merges isFirst isSecond).mem_or_mem isRow with inFirst | inSecond
    · exact (leftRepresents.wellFormed _ (List.mem_of_getElem? isFirst)).2 row inFirst
    · exact sameRows ▸ (rightRepresents.wellFormed _ (List.mem_of_getElem? isSecond)).2 row inSecond
  · rw [← leftRepresents.shape_eq]
    simp [Pattern.shape, Pattern.ncol, sameCount]
  · simp only [← leftRepresents.mem_iff, ← rightRepresents.mem_iff, mem_positions, List.getElem?_zipWith]
    by_cases inside : column < left.columns.length
    · have isFirst := List.getElem?_eq_getElem inside
      have isSecond := List.getElem?_eq_getElem (Nat.lt_of_lt_of_eq inside sameCount)
      simp only [isFirst, isSecond, Option.some.injEq, exists_eq_left', (merges isFirst isSecond).mem_iff]
    · have noFirst := List.getElem?_eq_none (Nat.le_of_not_lt inside)
      have noSecond := List.getElem?_eq_none (Nat.le_of_not_lt (sameCount ▸ inside))
      simp [noFirst, noSecond]

/-- The pattern of an elementwise operation on operands of equal shape: it stores what the zero rule
says. -/
structure Follows (rule : ZeroRule) (left right pattern : Pattern) : Prop where
  shape_eq : pattern.shape = left.shape
  wellFormed : pattern.WellFormed
  mem_iff : ∀ row column, row < left.nrow → column < left.ncol →
    ((row, column) ∈ pattern.positions ↔
      rule.Stores ((row, column) ∈ left.positions) ((row, column) ∈ right.positions))

theorem exists_combine {left right : Pattern} (sameShape : left.shape = right.shape)
    (fits : rule = .dense → left.ncol + 1 ≤ maxBuffer ∧ left.nrow * left.ncol ≤ maxBuffer) :
    ∃ pattern, left.combine right rule = .ok pattern := by
  cases rule with
  | union | preserves | intersection | leftOperand => exact ⟨_, if_pos sameShape⟩
  | dense =>
      simp only [combine, if_pos sameShape, dense, requireBuffer, if_pos (fits rfl).1, if_pos (fits rfl).2]
      exact ⟨_, rfl⟩

section Follows

variable {left right pattern : Pattern} (leftWellFormed : left.WellFormed) (rightWellFormed : right.WellFormed)
include leftWellFormed rightWellFormed

theorem merge_follows {single : Bool} (derived : merge single left right = .ok pattern) :
    Follows (if single then .union else .intersection) left right pattern := by
  have sameShape : left.shape = right.shape := by
    by_contra differs
    cases derived.symm.trans (if_neg differs)
  rcases leftWellFormed.represents_positions.merge (sameShape ▸ rightWellFormed.represents_positions) single with
    ⟨_, merged, represents⟩
  cases derived.symm.trans merged
  refine ⟨represents.shape_eq, represents.wellFormed, fun row column _ _ => ?_⟩
  rw [represents.mem_iff]
  cases single <;> rfl

theorem orAbsent_follows (derived : left.orAbsent right = .ok pattern) :
    Follows .leftOperand left right pattern := by
  unfold orAbsent at derived
  split at derived
  · cases derived
    refine ⟨by simp [shape, ncol], ?_, fun row column rowInside inside => ?_⟩
    · intro column member
      rcases List.mem_map.mp member with ⟨_, _, rfl⟩
      exact ⟨List.pairwise_lt_range.filter _, fun row isRow => List.mem_range.mp (List.mem_filter.mp isRow).1⟩
    · simp [mem_positions, inside, rowInside, ZeroRule.Stores, ← leftWellFormed.contains_iff,
        ← rightWellFormed.contains_iff]
  · cases derived

theorem combine_follows (derived : left.combine right rule = .ok pattern) :
    Follows rule left right pattern := by
  cases rule with
  | preserves =>
      rcases merge_follows leftWellFormed rightWellFormed derived with ⟨shaped, wellFormed, members⟩
      exact ⟨shaped, wellFormed, members⟩
  | union => exact merge_follows leftWellFormed rightWellFormed derived
  | intersection => exact merge_follows leftWellFormed rightWellFormed derived
  | leftOperand => exact orAbsent_follows leftWellFormed rightWellFormed derived
  | dense =>
      simp only [combine] at derived
      split at derived
      · rw [eq_full_of_dense derived]
        refine ⟨shape_full .., wellFormed_full _ _, fun row column rowInside inside => ?_⟩
        simp [mem_positions_full, ZeroRule.Stores, rowInside, inside]
      · cases derived

end Follows

/-! ## Broadcasting -/

theorem WellFormed.nnz_eq_one_iff {pattern : Pattern} (wellFormed : pattern.WellFormed)
    (isScalar : pattern.isScalar) : pattern.nnz = 1 ↔ (0, 0) ∈ pattern.positions := by
  simp only [Pattern.isScalar, Bool.and_eq_true, beq_iff_eq] at isScalar
  have only : ∀ position ∈ pattern.positions, position = (0, 0) := by
    rintro ⟨row, column⟩ member
    have inside := wellFormed.lt_of_mem member
    exact Prod.ext (by simp only; omega) (by simp only; omega)
  rw [← length_positions, List.length_eq_one_iff]
  constructor
  · rintro ⟨position, alone⟩
    have isOnly := only position (by simp [alone])
    simp [alone, isOnly]
  · intro member
    refine ⟨(0, 0), List.perm_singleton.mp ?_⟩
    rw [List.perm_ext_iff_of_nodup wellFormed.nodup_positions (by simp)]
    intro position
    rw [List.mem_singleton]
    exact ⟨only position, fun same => same ▸ member⟩

/-- A broadcast operand is stored where the operand has an entry to offer. -/
theorem broadcast_spec {pattern spread : Pattern} (derived : pattern.broadcast shape = .ok spread)
    (wellFormed : pattern.WellFormed) (fits : pattern.shape = shape ∨ pattern.isScalar) :
    spread.shape = shape ∧ spread.WellFormed ∧
      ∀ row column, row < shape.1 → column < shape.2 →
        ((row, column) ∈ spread.positions ↔ (pattern.operandIndex? row column).isSome) := by
  have stored : ∀ row column, (pattern.nonzero? row column).isSome ↔
      (row, column) ∈ pattern.positions := fun _ _ => wellFormed.contains_iff
  unfold broadcast at derived
  split at derived
  · rename_i sameShape
    cases derived
    refine ⟨sameShape, wellFormed, fun row column rowInside columnInside => ?_⟩
    unfold operandIndex?
    split
    · rename_i isScalar
      simp only [Pattern.isScalar, Bool.and_eq_true, beq_iff_eq] at isScalar
      simp only [← sameShape, Pattern.shape, isScalar, Nat.lt_one_iff] at rowInside columnInside
      rw [rowInside, columnInside, stored]
    · rw [stored]
  · rename_i otherShape
    have isScalar : pattern.isScalar := fits.resolve_left otherShape
    have index : ∀ row column, pattern.operandIndex? row column = pattern.nonzero? 0 0 := by
      intro row column
      rw [operandIndex?, if_pos isScalar]
    split at derived
    · rename_i isStored
      rw [eq_full_of_dense derived]
      refine ⟨shape_full .., wellFormed_full _ _, fun row column rowInside columnInside => ?_⟩
      rw [index, stored, ← wellFormed.nnz_eq_one_iff isScalar, mem_positions_full]
      simp [rowInside, columnInside, isStored]
    · rename_i notStored
      rw [eq_blank_of_empty derived]
      refine ⟨shape_blank .., wellFormed_blank _ _, fun row column _ _ => ?_⟩
      rw [index, stored, ← wellFormed.nnz_eq_one_iff isScalar]
      simp [positions_blank, notStored]

theorem commonShape?_eq_some {left right : Pattern} (common : left.commonShape? right = some shape) :
    shape = (if left.isScalar then right.shape else left.shape) ∧
      (left.shape = shape ∨ left.isScalar) ∧ (right.shape = shape ∨ right.isScalar) := by
  unfold commonShape? at common
  split at common
  · rename_i sameShape
    cases common
    exact ⟨by split <;> simp [sameShape], .inl rfl, .inl sameShape.symm⟩
  · split at common
    · rename_i leftScalar
      cases common
      exact ⟨by rw [if_pos leftScalar], .inr leftScalar, .inl rfl⟩
    · rename_i leftLarge
      split at common
      · rename_i rightScalar
        cases common
        exact ⟨by rw [if_neg leftLarge], .inl rfl, .inr rightScalar⟩
      · cases common

/-- The pattern of a binary operation, in terms of the entries that its operands have to offer at each
position. -/
structure Broadcasts (rule : ZeroRule) (left right pattern : Pattern) : Prop where
  shape_eq : pattern.shape = if left.isScalar then right.shape else left.shape
  wellFormed : pattern.WellFormed
  mem_iff : ∀ row column, row < pattern.nrow → column < pattern.ncol →
    ((row, column) ∈ pattern.positions ↔
      rule.Stores (left.operandIndex? row column).isSome (right.operandIndex? row column).isSome)

theorem broadcasts_of_combine {left right left' right' pattern : Pattern} (leftWellFormed : left.WellFormed)
    (rightWellFormed : right.WellFormed) (common : left.commonShape? right = some shape)
    (leftSpread : left.broadcast shape = .ok left') (rightSpread : right.broadcast shape = .ok right')
    (combined : left'.combine right' rule = .ok pattern) : Broadcasts rule left right pattern := by
  rcases commonShape?_eq_some common with ⟨shape_eq, leftFits, rightFits⟩
  rcases broadcast_spec leftSpread leftWellFormed leftFits with ⟨leftShape, leftSound, leftMem⟩
  rcases broadcast_spec rightSpread rightWellFormed rightFits with ⟨_, rightSound, rightMem⟩
  have follows := combine_follows leftSound rightSound combined
  have sameShape : pattern.shape = shape := follows.shape_eq.trans leftShape
  refine ⟨sameShape.trans shape_eq, follows.wellFormed, fun row column rowInside inside => ?_⟩
  have leftRow : row < left'.nrow := (Prod.mk.inj follows.shape_eq).1 ▸ rowInside
  have leftColumn : column < left'.ncol := (Prod.mk.inj follows.shape_eq).2 ▸ inside
  subst sameShape
  rw [follows.mem_iff row column leftRow leftColumn, leftMem row column rowInside inside,
    rightMem row column rowInside inside]

end Pattern

end Autodiff
