import Autodiff.Proofs.Pattern.Validation

/-!
# Every entry has its place

Rearranging patterns loses no entry and doubles none. The sources that transposition and concatenation list for
their results are a bijection onto the stored entries of the operands, because an entry goes to one position
and a position is reached by one entry.
-/

namespace Autodiff.Pattern

namespace Routes

variable {σ : Type} {origin : σ → Nat × Nat → Prop} {pattern : Pattern} {sources : List σ}
  (routes : Routes origin pattern sources)
include routes

theorem length_sources : sources.length = pattern.nnz := by
  rw [← routes.routed.length_eq, length_positions]

variable (unique : Relator.BiUnique fun position source => origin source position)
include unique

theorem getElem?_sources {index : Nat} {source : σ} : sources[index]? = some source ↔
    ∃ position, pattern.positions[index]? = some position ∧ origin source position := by
  constructor
  · exact forall₂_getElem? routes.routed.flip
  · rintro ⟨position, isPosition, isOrigin⟩
    rcases forall₂_getElem? routes.routed isPosition with ⟨other, isOther, otherOrigin⟩
    rw [isOther, unique.2 otherOrigin isOrigin]

theorem mem_sources {source : σ} : source ∈ sources ↔ ∃ position, origin source position := by
  simp only [List.mem_iff_getElem?, routes.getElem?_sources unique]
  constructor
  · rintro ⟨_, position, _, isOrigin⟩
    exact ⟨position, isOrigin⟩
  · rintro ⟨position, isOrigin⟩
    rcases List.mem_iff_getElem?.mp (routes.complete isOrigin) with ⟨index, found⟩
    exact ⟨index, position, found, isOrigin⟩

theorem nodup_sources (wellFormed : pattern.WellFormed) : sources.Nodup :=
  (List.rel_nodup unique routes.routed).mp wellFormed.nodup_positions

end Routes

/-! ## Transposition -/

/-- A transposed pattern, and the permutation that its entries went through. -/
structure Mirrors (pattern transposed : Pattern) (sources : List Nat) : Prop where
  shape_eq : transposed.shape = (pattern.ncol, pattern.nrow)
  mem_iff : ∀ row column, (column, row) ∈ transposed.positions ↔ (row, column) ∈ pattern.positions
  permutes : sources.Perm (List.range pattern.nnz)
  getElem?_eq : ∀ ⦃index source : Nat⦄, sources[index]? = some source →
    transposed.positions[index]? = pattern.positions[source]?.map Prod.swap

section Transposition

variable {pattern : Pattern} {transposed : Pattern × List Nat} (wellFormed : pattern.WellFormed)
include wellFormed

theorem WellFormed.transposeOrigin_biUnique :
    Relator.BiUnique fun position source => pattern.transposeOrigin source position := by
  constructor
  · intro first source second isFirst isSecond
    cases first
    cases isFirst.symm.trans isSecond
    rfl
  · intro position first second isFirst isSecond
    have inside := (List.getElem?_eq_some_iff.mp isFirst).1
    exact (List.getElem?_inj inside wellFormed.nodup_positions).mp (isFirst.trans isSecond.symm)

variable (derived : pattern.transpose = .ok transposed)
include derived

theorem WellFormed.getElem?_transpose {index source : Nat} : transposed.2[index]? = some source ↔
    ∃ row column, transposed.1.positions[index]? = some (column, row) ∧
      pattern.positions[source]? = some (row, column) := by
  rw [(wellFormed.transpose_routes derived).getElem?_sources wellFormed.transposeOrigin_biUnique]
  constructor
  · rintro ⟨⟨column, row⟩, isPosition, isOrigin⟩
    exact ⟨row, column, isPosition, isOrigin⟩
  · rintro ⟨row, column, isPosition, isOrigin⟩
    exact ⟨(column, row), isPosition, isOrigin⟩

theorem WellFormed.mirrors : Mirrors pattern transposed.1 transposed.2 := by
  have routes := wellFormed.transpose_routes derived
  have represents := wellFormed.represents_positions.transpose derived
  have nodup := routes.nodup_sources wellFormed.transposeOrigin_biUnique represents.wellFormed
  refine ⟨represents.shape_eq, fun row column => represents.mem_iff column row, ?_, fun index source found => ?_⟩
  · refine (List.perm_ext_iff_of_nodup nodup List.nodup_range).mpr fun source => ?_
    rw [routes.mem_sources wellFormed.transposeOrigin_biUnique, List.mem_range, ← length_positions]
    constructor
    · rintro ⟨position, isOrigin⟩
      exact (List.getElem?_eq_some_iff.mp isOrigin).1
    · intro inside
      exact ⟨pattern.positions[source].swap, List.getElem?_eq_getElem inside⟩
  · rcases (wellFormed.getElem?_transpose derived).mp found with ⟨row, column, isPosition, isOrigin⟩
    rw [isPosition, isOrigin]
    rfl

/-- Transposing again gives back the pattern, with the inverse permutation. -/
theorem WellFormed.transpose_transpose (fits : pattern.ncol + 1 ≤ maxBuffer) : ∃ inverse,
    transposed.1.transpose = .ok (pattern, inverse) ∧
      ∀ index source : Nat, inverse[source]? = some index ↔ transposed.2[index]? = some source := by
  have represents := wellFormed.represents_positions.transpose derived
  have fitsAgain : transposed.1.nrow + 1 ≤ maxBuffer := by rwa [represents.nrow_eq]
  rcases exists_transpose fitsAgain with ⟨again, isAgain⟩
  have same : again.1 = pattern := (represents.transpose isAgain).eq wellFormed.represents_positions
  refine ⟨again.2, isAgain.trans (congrArg Except.ok (Prod.ext same rfl)), fun index source => ?_⟩
  rw [represents.wellFormed.getElem?_transpose isAgain, wellFormed.getElem?_transpose derived, same]
  grind

end Transposition

/-! ## Concatenation -/

theorem concatOrigin_biUnique (kind : ConcatKind) {parts : List Pattern}
    (wellFormed : ∀ part ∈ parts, part.WellFormed) :
    Relator.BiUnique fun position source => concatOrigin kind parts source position := by
  refine ⟨?_, fun position first second => concatOrigin_unique wellFormed⟩
  rintro _ source _ ⟨part, stored, isPart, isStored, rfl⟩ ⟨other, otherStored, isOther, isOtherStored, rfl⟩
  cases isPart.symm.trans isOther
  cases isStored.symm.trans isOtherStored
  rfl

/-- Concatenation fails if the parts do not fit together, and only then. Otherwise the result has the summed shape, its
sources are all stored entries of all parts, each once, and every stored position is that of its source, shifted
by the parts before. -/
theorem concat_places_entries (kind : ConcatKind) (parts : List Pattern)
    (wellFormed : ∀ part ∈ parts, part.WellFormed) (fits : kind.height (parts.map nrow) ≤ maxWord) :
    ((∃ error, concat kind parts = .error error) ↔ ¬kind.Aligned (parts.map nrow) (parts.map ncol)) ∧
    (kind.Aligned (parts.map nrow) (parts.map ncol) → ∃ pattern sources,
      concat kind parts = .ok (pattern, sources) ∧ pattern.WellFormed ∧
      pattern.shape = (kind.height (parts.map nrow), kind.width (parts.map ncol)) ∧
      sources.length = pattern.nnz ∧ sources.Nodup ∧
      (∀ number index, (number, index) ∈ sources ↔ ∃ part, parts[number]? = some part ∧ index < part.nnz) ∧
      ∀ index number entry : Nat, sources[index]? = some (number, entry) → ∃ part row column,
        parts[number]? = some part ∧ part.positions[entry]? = some (row, column) ∧
        pattern.positions[index]? = some (kind.rowShift (parts.map nrow) number + row,
          kind.columnShift (parts.map ncol) number + column)) := by
  constructor
  · constructor
    · rintro ⟨error, failed⟩ aligned
      rcases exists_concat aligned fits with ⟨combined, derived⟩
      cases failed.symm.trans derived
    · intro misaligned
      cases derived : concat kind parts with
      | error error => exact ⟨error, rfl⟩
      | ok combined => exact absurd (concat_concatenates derived wellFormed).aligned misaligned
  · intro aligned
    rcases exists_concat aligned fits with ⟨⟨pattern, sources⟩, derived⟩
    have concatenates := concat_concatenates derived wellFormed
    have unique := concatOrigin_biUnique kind wellFormed
    refine ⟨pattern, sources, derived, concatenates.wellFormed, Prod.ext concatenates.nrow_eq concatenates.ncol_eq,
      concatenates.routes.length_sources, concatenates.routes.nodup_sources unique concatenates.wellFormed, ?_, ?_⟩
    · intro number index
      rw [concatenates.routes.mem_sources unique]
      constructor
      · rintro ⟨_, part, stored, isPart, isStored, _⟩
        exact ⟨part, isPart, part.length_positions ▸ (List.getElem?_eq_some_iff.mp isStored).1⟩
      · rintro ⟨part, isPart, inside⟩
        rw [← length_positions] at inside
        exact ⟨_, part, _, isPart, List.getElem?_eq_getElem inside, rfl⟩
    · intro index number entry found
      rcases (concatenates.routes.getElem?_sources unique).mp found with
        ⟨_, isPosition, part, ⟨row, column⟩, isPart, isStored, rfl⟩
      exact ⟨part, row, column, isPart, isStored, isPosition⟩

/-- A part without rows between two parts that have an empty column each. -/
theorem gaps_concatenated :
    let parts : List Pattern := [⟨2, [[0, 1], []]⟩, ⟨0, [[], []]⟩, ⟨1, [[], [0]]⟩]
    (∀ part ∈ parts, part.WellFormed) ∧ ∃ pattern sources,
      concat .vertical parts = .ok (pattern, sources) ∧ pattern.shape = (3, 2) ∧ sources.Nodup ∧ (2, 0) ∈ sources := by
  intro parts
  have wellFormed : ∀ part ∈ parts, part.WellFormed := by decide
  have aligned : ∀ columns ∈ parts.map ncol, columns = 2 := by decide
  rcases (concat_places_entries .vertical parts wellFormed (by decide)).2 aligned with
    ⟨pattern, sources, derived, _, shape, _, nodup, members, _⟩
  exact ⟨wellFormed, pattern, sources, derived, shape, nodup, (members 2 0).mpr ⟨_, rfl, by decide⟩⟩

end Autodiff.Pattern
