import Autodiff.Proofs.Pattern.Derivation
import Autodiff.Proofs.Pattern.Rearrangement

/-!
# Patterns as relations

A well-formed pattern is determined by its shape and by the relation of rows and columns that it stores. So
two computations that find the same relation find the same pattern, in whatever order they find it.
-/

namespace Autodiff.Pattern

namespace Represents

variable {pattern other : Pattern} {shape : Nat × Nat} {stores : Nat → Nat → Prop}

variable (represents : pattern.Represents shape stores)
include represents

theorem transpose {transposed : Pattern × List Nat} (derived : pattern.transpose = .ok transposed) :
    transposed.1.Represents (shape.2, shape.1) fun row column => stores column row := by
  refine ⟨represents.wellFormed.transpose derived, ?_, fun row column => ?_⟩
  · rw [shape_of_transpose derived, represents.nrow_eq, represents.ncol_eq]
  · have routes := represents.wellFormed.transpose_routes derived
    rw [← represents.mem_iff column row]
    constructor
    · intro member
      rcases List.mem_iff_getElem?.mp member with ⟨index, found⟩
      rcases forall₂_getElem? routes.routed found with ⟨source, _, isOrigin⟩
      exact List.mem_of_getElem? isOrigin
    · intro member
      rcases List.mem_iff_getElem?.mp member with ⟨source, found⟩
      have complete := routes.complete
      exact @complete source (row, column) found

end Represents

section Pairs

variable {nrow ncol : Nat} {pairs : List (Nat × Nat)}
  (inside : ∀ pair ∈ pairs, pair.1 < nrow ∧ pair.2 < ncol)
include inside

/-- Pairs of rows and columns, in any order and possibly repeated, give the pattern that stores them. -/
theorem represents_ofColumns :
    (ofColumns nrow ((buckets ncol Prod.snd pairs).map fun column => column.map Prod.fst)).Represents
      (nrow, ncol) fun row column => (row, column) ∈ pairs := by
  rw [ofColumns, buckets_eq, List.map_map, List.map_map]
  refine represents_range (fun _ _ => (normalize_spec _).2) (fun row column _ => ?_) fun row column =>
    inside (row, column)
  simp [(normalize_spec _).1]

/-- Pairs in storage order are cut into columns as they are. -/
theorem represents_buckets (ascends : pairs.Pairwise fun earlier later =>
      earlier.2 < later.2 ∨ (earlier.2 = later.2 ∧ earlier.1 < later.1)) :
    Represents ⟨nrow, (buckets ncol Prod.snd pairs).map fun column => column.map Prod.fst⟩ (nrow, ncol)
      fun row column => (row, column) ∈ pairs := by
  rw [buckets_eq, List.map_map]
  refine represents_range (fun column _ => ?_) (by simp) fun row column => inside (row, column)
  rw [Function.comp_apply, List.pairwise_map]
  refine (ascends.filter _).imp_of_mem fun earlierMem laterMem ordered => ?_
  simp only [List.mem_filter, beq_iff_eq] at earlierMem laterMem
  omega

theorem represents_ofTriplets (fits : ncol + 1 ≤ maxBuffer) : ∃ pattern,
    ofTriplets nrow ncol pairs = .ok pattern ∧
      pattern.Represents (nrow, ncol) fun row column => (row, column) ∈ pairs := by
  rcases eraseReps_precedes pairs with ⟨members, ascends⟩
  have sortedInside : ∀ pair ∈ (pairs.mergeSort precedes).eraseReps, pair.1 < nrow ∧ pair.2 < ncol :=
    fun pair member => inside pair ((members pair).mp member)
  have noneOutside : (pairs.mergeSort precedes).eraseReps.find?
      (fun pair => nrow ≤ pair.1 || ncol ≤ pair.2) = none := by
    simpa [List.find?_eq_none] using fun row column => sortedInside (row, column)
  refine ⟨_, ?_, (represents_buckets sortedInside ascends).congr fun row column => members (row, column)⟩
  simp only [ofTriplets, requireBuffer, if_pos fits, ok_bind, noneOutside]
  rfl

end Pairs

/-! ## Concatenation -/

theorem Concatenates.represents {kind : ConcatKind} {parts : List Pattern} {pattern : Pattern}
    {sources : List PartEntry} (concatenates : Concatenates kind parts pattern sources) :
    pattern.Represents (kind.height (parts.map nrow), kind.width (parts.map ncol))
      fun row column => ∃ number part row' column', parts[number]? = some part ∧
        (row', column') ∈ part.positions ∧ row = kind.rowShift (parts.map nrow) number + row' ∧
        column = kind.columnShift (parts.map ncol) number + column' := by
  refine ⟨concatenates.wellFormed, Prod.ext concatenates.nrow_eq concatenates.ncol_eq, ?_⟩
  intro row column
  constructor
  · intro member
    rcases exists_related concatenates.routes.routed member with
      ⟨⟨number, index⟩, _, part, ⟨row', column'⟩, found, stored, same⟩
    exact ⟨number, part, row', column', found, List.mem_of_getElem? stored, Prod.mk.inj same⟩
  · rintro ⟨number, part, row', column', found, member, rfl, rfl⟩
    rcases List.mem_iff_getElem?.mp member with ⟨index, stored⟩
    exact @concatenates.routes.complete (number, index) _ ⟨part, _, found, stored, rfl⟩

/-- Parts of one shape: where a position of a part stands. -/
def place (kind : ConcatKind) (count : Nat) (shape : Nat × Nat) (number row column : Nat) : Nat × Nat :=
  (kind.rowShift (List.replicate count shape.1) number + row,
    kind.columnShift (List.replicate count shape.2) number + column)

theorem total_replicate (count size : Nat) : total (List.replicate count size) = count * size := by
  induction count with
  | zero => simp
  | succ count ih => simp [List.replicate_succ, ih, Nat.succ_mul, Nat.add_comm]

theorem total_take_replicate {count number : Nat} (inside : number ≤ count) :
    total ((List.replicate count 1).take number) = number := by
  simp [List.take_replicate, total_replicate, Nat.min_eq_left inside]

theorem place_vertical {count number : Nat} (inside : number ≤ count) (row column : Nat) :
    place .vertical count (1, 1) number row column = (number + row, column) := by
  simp only [place, ConcatKind.rowShift, ConcatKind.columnShift, total_take_replicate inside,
    Nat.zero_add]

theorem place_horizontal {count number : Nat} (inside : number ≤ count) (height row column : Nat) :
    place .horizontal count (height, 1) number row column = (row, number + column) := by
  simp only [place, ConcatKind.rowShift, ConcatKind.columnShift, total_take_replicate inside,
    Nat.zero_add]

section SameShape

variable {parts : List Pattern} {count : Nat} {shape : Nat × Nat} {stores : Nat → Nat → Nat → Prop}
  (represents : List.Forall₂ (fun part number => part.Represents shape (stores number)) parts
    (List.range count))
include represents

theorem map_eq_replicate {measure : Pattern → Nat} {size : Nat}
    (same : ∀ (part : Pattern) (number : Nat), part.Represents shape (stores number) →
      measure part = size) : parts.map measure = List.replicate count size := by
  rw [List.eq_replicate_iff]
  constructor
  · simpa using represents.length_eq
  · simp only [List.forall_mem_map]
    intro part member
    rcases exists_related represents member with ⟨number, _, each⟩
    exact same part number each

theorem map_nrow_eq_replicate : parts.map nrow = List.replicate count shape.1 :=
  map_eq_replicate represents fun _ _ each => each.nrow_eq

theorem map_ncol_eq_replicate : parts.map ncol = List.replicate count shape.2 :=
  map_eq_replicate represents fun _ _ each => each.ncol_eq

theorem Concatenates.represents_same {kind : ConcatKind} {pattern : Pattern} {sources : List PartEntry}
    (concatenates : Concatenates kind parts pattern sources) :
    pattern.Represents
      (kind.height (List.replicate count shape.1), kind.width (List.replicate count shape.2))
      fun row column => ∃ number < count, ∃ row' column', stores number row' column' ∧
        (row, column) = place kind count shape number row' column' := by
  have stored := concatenates.represents
  rw [map_nrow_eq_replicate represents, map_ncol_eq_replicate represents] at stored
  apply stored.congr
  intro row column
  constructor
  · rintro ⟨number, part, row', column', found, member, rfl, rfl⟩
    rcases forall₂_getElem? represents found with ⟨_, isNumber, each⟩
    rcases List.getElem?_eq_some_iff.mp isNumber with ⟨inside, rfl⟩
    simp only [List.length_range] at inside
    simp only [List.getElem_range] at each
    exact ⟨number, inside, row', column', (each.mem_iff row' column').mp member, rfl⟩
  · rintro ⟨number, inside, row', column', isStored, same⟩
    rcases forall₂_getElem? represents.flip (List.getElem?_range inside) with ⟨part, found, each⟩
    cases same
    exact ⟨number, part, row', column', found, (each.mem_iff row' column').mpr isStored, rfl, rfl⟩

end SameShape

theorem find?_eq_none_of_same {parts : List Pattern} {measure : Pattern → Nat} {size : Nat}
    (same : ∀ part ∈ parts, measure part = size) :
    (parts.find? fun part => measure part ≠ (parts.head?.map measure).getD 0) = none := by
  cases parts with
  | nil => rfl
  | cons first parts => simp_all

theorem exists_vertcat {parts : List Pattern} {size : Nat} (same : ∀ part ∈ parts, part.ncol = size)
    (fits : total (parts.map nrow) ≤ maxWord) :
    ∃ combined, concat .vertical parts = .ok combined := by
  simp only [concat, vertcat, find?_eq_none_of_same same, requireWord, if_pos fits]
  exact ⟨_, rfl⟩

theorem exists_horzcat {parts : List Pattern} {size : Nat} (same : ∀ part ∈ parts, part.nrow = size) :
    ∃ combined, concat .horizontal parts = .ok combined := by
  simp only [concat, horzcat, find?_eq_none_of_same same]
  exact ⟨_, rfl⟩

/-! ## Fixed patterns -/

theorem represents_scalar : scalar.Represents (1, 1) fun row column => row = 0 ∧ column = 0 := by
  refine ⟨wellFormed_scalar, rfl, fun row column => ?_⟩
  simp [positions, scalar]

theorem WellFormed.eq_scalar {pattern : Pattern} (wellFormed : pattern.WellFormed)
    (isOne : pattern.isScalar = true) (single : pattern.nnz = 1) : pattern = .scalar := by
  rcases pattern with ⟨nrow, columns⟩
  simp only [isScalar, Pattern.ncol, Bool.and_eq_true, beq_iff_eq] at isOne
  rcases isOne with ⟨rfl, oneColumn⟩
  rcases List.length_eq_one_iff.mp oneColumn with ⟨rows, rfl⟩
  simp only [Pattern.nnz, List.map_cons, List.map_nil, total_cons, total_nil, Nat.add_zero] at single
  rcases List.length_eq_one_iff.mp single with ⟨row, rfl⟩
  have inside := (wellFormed [row] (by simp)).2 row (by simp)
  simp only [Nat.lt_one_iff] at inside
  rw [inside]
  rfl

end Autodiff.Pattern
