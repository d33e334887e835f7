import Autodiff.Proofs.Pattern.Compressed
import Autodiff.Proofs.Pattern.Representation

/-!
# Which patterns are accepted

Reading a compressed form checks pointers and rows in one pass that looks at neighbours and at the last row of
each column only. It accepts exactly the arrays that are well formed entry by entry (`IsCompressed`). The
other ways to make a pattern do not go through these checks, and need not: whatever they are given, within
bounds and in shapes that fit together, what they return would pass.
-/

namespace Autodiff.Pattern

/-! ## Compressed forms, entry by entry -/

section Entries

variable {nrow ncol : Nat} {pointers rows : List Nat} {start stop : Nat}

end Entries

/-! ## What is made without checks -/

def Accepted (pattern : Pattern) : Prop :=
  ofCompressed pattern.nrow pattern.ncol pattern.columnPointers pattern.rows = .ok pattern

/-- A well-formed pattern whose pointers fit in a buffer. -/
structure Storable (pattern : Pattern) : Prop where
  wellFormed : pattern.WellFormed
  fits : pattern.ncol + 1 ≤ maxBuffer

theorem Storable.accepted {pattern : Pattern} (storable : pattern.Storable) : pattern.Accepted :=
  storable.wellFormed.ofCompressed_columnPointers (Nat.lt_of_lt_of_le storable.fits (by decide))

/-- The calls that make patterns without checking them, on arguments for which the result can exist: positions
lie inside the matrix, operands are well formed and have shapes that fit together, and sizes are within the
range of machine words and buffers. -/
inductive Produces : Except Error Pattern → Prop where
  | dense {nrow ncol : Nat} (fits : ncol + 1 ≤ maxBuffer) (rowsFit : nrow * ncol ≤ maxBuffer) :
      Produces (dense nrow ncol)
  | empty (nrow : Nat) {ncol : Nat} (fits : ncol + 1 ≤ maxBuffer) : Produces (empty nrow ncol)
  | diagonal {size : Nat} (fits : size + 1 ≤ maxBuffer) : Produces (diagonal size)
  | ofTriplets {nrow ncol : Nat} {entries : List (Nat × Nat)}
      (inside : ∀ entry ∈ entries, entry.1 < nrow ∧ entry.2 < ncol) (fits : ncol + 1 ≤ maxBuffer) :
      Produces (ofTriplets nrow ncol entries)
  | ofColumns {nrow : Nat} {columns : List (List Nat)} (inside : ∀ column ∈ columns, ∀ row ∈ column, row < nrow)
      (fits : columns.length + 1 ≤ maxBuffer) : Produces (.ok (ofColumns nrow columns))
  | union {left right : Pattern} (leftStorable : left.Storable) (rightStorable : right.Storable)
      (sameShape : left.shape = right.shape) : Produces (left.union right)
  | intersection {left right : Pattern} (leftStorable : left.Storable) (rightStorable : right.Storable)
      (sameShape : left.shape = right.shape) : Produces (left.intersection right)
  | combine {left right : Pattern} (leftStorable : left.Storable) (rightStorable : right.Storable)
      (sameShape : left.shape = right.shape) {rule : ZeroRule}
      (rowsFit : rule = .dense → left.nrow * left.ncol ≤ maxBuffer) : Produces (left.combine right rule)
  | transpose {pattern : Pattern} (storable : pattern.Storable) (fits : pattern.nrow + 1 ≤ maxBuffer) :
      Produces (Prod.fst <$> pattern.transpose)
  | concat {kind : ConcatKind} {parts : List Pattern} (storable : ∀ part ∈ parts, part.Storable)
      (aligned : kind.Aligned (parts.map nrow) (parts.map ncol))
      (word : kind.height (parts.map nrow) ≤ maxWord) (fits : kind.width (parts.map ncol) + 1 ≤ maxBuffer) :
      Produces (Prod.fst <$> concat kind parts)

theorem Storable.combine {left right : Pattern} (leftStorable : left.Storable) (rightStorable : right.Storable)
    (sameShape : left.shape = right.shape) (rule : ZeroRule)
    (rowsFit : rule = .dense → left.nrow * left.ncol ≤ maxBuffer) :
    ∃ pattern, left.combine right rule = .ok pattern ∧ pattern.Storable := by
  rcases exists_combine sameShape fun isDense => ⟨leftStorable.fits, rowsFit isDense⟩ with ⟨pattern, derived⟩
  have follows := combine_follows leftStorable.wellFormed rightStorable.wellFormed derived
  exact ⟨pattern, derived, follows.wellFormed, (Prod.mk.inj follows.shape_eq).2 ▸ leftStorable.fits⟩

theorem exists_concat {kind : ConcatKind} {parts : List Pattern}
    (aligned : kind.Aligned (parts.map nrow) (parts.map ncol)) (word : kind.height (parts.map nrow) ≤ maxWord) :
    ∃ combined, concat kind parts = .ok combined := by
  cases kind with
  | horizontal => exact exists_horzcat fun part member => aligned _ (List.mem_map_of_mem member)
  | vertical => exact exists_vertcat (fun part member => aligned _ (List.mem_map_of_mem member)) word
  | diagonal =>
      have fits : total (parts.map nrow) ≤ maxWord := word
      simp only [concat, diagcat, requireWord, if_pos fits]
      exact ⟨_, rfl⟩

theorem Produces.storable {call : Except Error Pattern} (produces : Produces call) :
    ∃ pattern, call = .ok pattern ∧ pattern.Storable := by
  cases produces with
  | @dense nrow ncol fits rowsFit =>
      refine ⟨full nrow ncol, ?_, wellFormed_full nrow ncol, ?_⟩
      · simp only [Pattern.dense, requireBuffer, if_pos fits, if_pos rowsFit]
        rfl
      · simpa [full, Pattern.ncol] using fits
  | @empty nrow ncol fits =>
      refine ⟨blank nrow ncol, ?_, wellFormed_blank nrow ncol, ?_⟩
      · simp only [Pattern.empty, requireBuffer, if_pos fits]
        rfl
      · simpa [blank, Pattern.ncol] using fits
  | @diagonal size fits =>
      refine ⟨⟨size, (List.range size).map fun index => [index]⟩, ?_, ?_, ?_⟩
      · simp only [Pattern.diagonal, requireBuffer, if_pos fits]
        rfl
      · simp [WellFormed]
      · simpa [Pattern.ncol] using fits
  | @ofTriplets nrow ncol entries inside fits =>
      rcases represents_ofTriplets inside fits with ⟨pattern, derived, represents⟩
      exact ⟨pattern, derived, represents.wellFormed, represents.ncol_eq ▸ fits⟩
  | @ofColumns nrow columns inside fits =>
      refine ⟨_, rfl, ?_, by simpa [Pattern.ofColumns, Pattern.ncol] using fits⟩
      intro column member
      rcases List.mem_map.mp member with ⟨rows, isColumn, rfl⟩
      rcases normalize_spec rows with ⟨members, ascends⟩
      exact ⟨ascends, fun row found => inside rows isColumn row ((members row).mp found)⟩
  | union leftStorable rightStorable sameShape =>
      exact leftStorable.combine rightStorable sameShape .union (by simp)
  | intersection leftStorable rightStorable sameShape =>
      exact leftStorable.combine rightStorable sameShape .intersection (by simp)
  | combine leftStorable rightStorable sameShape rowsFit =>
      exact leftStorable.combine rightStorable sameShape _ rowsFit
  | @transpose pattern storable fits =>
      rcases exists_transpose fits with ⟨transposed, derived⟩
      have shape := shape_of_transpose derived
      refine ⟨transposed.1, by rw [derived]; rfl, storable.wellFormed.transpose derived, ?_⟩
      exact (Prod.mk.inj shape).2 ▸ fits
  | @concat kind parts storable aligned word fits =>
      rcases exists_concat aligned word with ⟨combined, derived⟩
      have concatenates := concat_concatenates derived fun part member => (storable part member).wellFormed
      exact ⟨combined.1, by rw [derived]; rfl, concatenates.wellFormed, concatenates.ncol_eq ▸ fits⟩

end Autodiff.Pattern
