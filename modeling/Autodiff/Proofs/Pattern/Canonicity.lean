import Autodiff.Proofs.Pattern.Representation

/-!
# One pattern for each relation

Lookup and enumeration agree on one numbering of the stored positions, and a well-formed pattern is the only one of
its shape that stores what it stores. So a pattern does not show in which order and how often its positions were
given, and the laws of `and` and `or` are laws of merging.
-/

namespace Autodiff.Pattern

theorem WellFormed.eq_of_mem_iff {first second : Pattern} (firstWellFormed : first.WellFormed)
    (secondWellFormed : second.WellFormed) (sameShape : first.shape = second.shape)
    (same : ∀ row column, row < first.nrow → column < first.ncol →
      ((row, column) ∈ first.positions ↔ (row, column) ∈ second.positions)) : first = second := by
  refine firstWellFormed.represents_positions.eq ⟨secondWellFormed, sameShape.symm, fun row column => ?_⟩
  rcases Prod.mk.inj sameShape with ⟨sameRows, sameColumns⟩
  constructor
  · intro member
    have inside := secondWellFormed.lt_of_mem member
    exact (same row column (sameRows ▸ inside.1) (sameColumns ▸ inside.2)).mpr member
  · intro member
    have inside := firstWellFormed.lt_of_mem member
    exact (same row column inside.1 inside.2).mp member

/-! ## Numbering -/

theorem ofTriplets_eq_error {nrow ncol : Nat} {entries : List (Nat × Nat)}
    (outside : ∃ entry ∈ entries, nrow ≤ entry.1 ∨ ncol ≤ entry.2) :
    ∃ error, ofTriplets nrow ncol entries = .error error := by
  rcases outside with ⟨entry, member, isOutside⟩
  rw [ofTriplets, requireBuffer]
  split
  · cases isFirst : (entries.mergeSort precedes).eraseReps.find? (fun entry => nrow ≤ entry.1 || ncol ≤ entry.2) with
    | some first => exact ⟨_, by simp only [isFirst]; rfl⟩
    | none =>
        have inside := List.find?_eq_none.mp isFirst entry (((eraseReps_precedes entries).1 entry).mpr member)
        simp at inside
        omega
  · exact ⟨_, rfl⟩

/-- Looking up a position finds its place in the enumeration of all stored positions, which ascends by column and
row. Well-formed patterns of one shape that store the same positions are equal. And a list of positions, if they
all lie inside the matrix and the matrix is not too wide, gives the one pattern that stores them. -/
theorem numbering_canonical :
    (∀ pattern : Pattern, pattern.WellFormed →
      (∀ row column index, pattern.nonzero? row column = some index ↔
        pattern.positions[index]? = some (row, column)) ∧
      pattern.positions.length = pattern.nnz ∧
      pattern.positions.Pairwise fun earlier later =>
        earlier.2 < later.2 ∨ (earlier.2 = later.2 ∧ earlier.1 < later.1)) ∧
    (∀ first second : Pattern, first.WellFormed → second.WellFormed → first.shape = second.shape →
      (∀ position, position ∈ first.positions ↔ position ∈ second.positions) → first = second) ∧
    ∀ (nrow ncol : Nat) (entries : List (Nat × Nat)), ncol + 1 ≤ maxBuffer →
      ((∃ error, ofTriplets nrow ncol entries = .error error) ↔
        ∃ entry ∈ entries, nrow ≤ entry.1 ∨ ncol ≤ entry.2) ∧
      ((∀ entry ∈ entries, entry.1 < nrow ∧ entry.2 < ncol) →
        ∃ pattern, ofTriplets nrow ncol entries = .ok pattern ∧ ∀ other : Pattern,
          other.Represents (nrow, ncol) (fun row column => (row, column) ∈ entries) ↔ other = pattern) := by
  refine ⟨fun pattern wellFormed => ⟨fun row column index => wellFormed.nonzero?_eq_some, length_positions pattern,
    wellFormed.pairwise_positions⟩, ?_, fun nrow ncol entries fits => ⟨⟨?_, ofTriplets_eq_error⟩, fun inside => ?_⟩⟩
  · intro first second firstWellFormed secondWellFormed sameShape same
    exact firstWellFormed.eq_of_mem_iff secondWellFormed sameShape fun row column _ _ => same (row, column)
  · rintro ⟨error, failed⟩
    by_contra noneOutside
    rcases represents_ofTriplets (by simpa using noneOutside) fits with ⟨pattern, derived, _⟩
    cases failed.symm.trans derived
  · rcases represents_ofTriplets inside fits with ⟨pattern, derived, represents⟩
    refine ⟨pattern, derived, fun other => ⟨fun same => same.eq represents, ?_⟩⟩
    rintro rfl
    exact represents

/-- A column is empty, and one of the positions is given twice. -/
theorem empty_column_numbered :
    let pattern : Pattern := ⟨3, [[0, 2], [], [1]]⟩
    pattern.WellFormed ∧ pattern.nonzero? 1 2 = some 2 ∧
      ∃ read, ofTriplets 3 3 [(1, 2), (2, 0), (0, 0), (2, 0)] = .ok read ∧ read = pattern := by
  intro pattern
  have wellFormed : pattern.WellFormed := by decide
  rcases numbering_canonical with ⟨lookup, unique, triplets⟩
  refine ⟨wellFormed, ((lookup pattern wellFormed).1 1 2 2).mpr rfl, ?_⟩
  rcases (triplets 3 3 [(1, 2), (2, 0), (0, 0), (2, 0)] (by decide)).2 (by decide) with ⟨read, derived, only⟩
  have represents := (only read).mpr rfl
  refine ⟨read, derived, unique read pattern represents.wellFormed wellFormed represents.shape_eq ?_⟩
  rintro ⟨row, column⟩
  have positions : pattern.positions = [(0, 0), (2, 0), (1, 2)] := rfl
  rw [represents.mem_iff, positions]
  grind

/-- There is no room for the pointers of so many columns. -/
theorem wide_triplets_refused : ofTriplets 1 maxWord [] = .error (.violation .sizeOverflow) ∧
    ¬∃ entry ∈ ([] : List (Nat × Nat)), 1 ≤ entry.1 ∨ maxWord ≤ entry.2 :=
  ⟨rfl, by simp⟩

/-! ## Zero rules -/

end Autodiff.Pattern
