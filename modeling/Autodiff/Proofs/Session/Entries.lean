import Autodiff.Proofs.Session.Calls
import Mathlib.Algebra.BigOperators.Fin
import Mathlib.Algebra.BigOperators.Pi

/-!
# Seeds as vectors

The stored entries of all blocks of one side of a tape index the rows or the columns of a Jacobian. A
seed is a vector over these entries, written as one list per block; the two forms determine each other.
-/

namespace Autodiff

/-- A stored entry of a list of blocks: the number of the block and the number of the entry in it. -/
abbrev BlockEntry (blocks : List Block) : Type :=
  (index : Fin blocks.length) × Fin (blocks.get index).slots.length

namespace BlockEntry

variable {blocks : List Block}

def slot (entry : BlockEntry blocks) : Nat :=
  (blocks.get entry.1).slots.get entry.2

theorem eq_iff {first second : BlockEntry blocks} :
    first = second ↔ first.1.val = second.1.val ∧ first.2.val = second.2.val := by
  rcases first with ⟨index, number⟩
  rcases second with ⟨index', number'⟩
  constructor
  · rintro ⟨⟩
    exact ⟨rfl, rfl⟩
  · rintro ⟨sameIndex, sameNumber⟩
    cases Fin.ext sameIndex
    cases Fin.ext sameNumber
    rfl

theorem slot_lt {size : Nat} (below : SlotsBelow size blocks) (entry : BlockEntry blocks) :
    entry.slot < size :=
  below _ (List.get_mem ..) _ (List.get_mem ..)

def all (blocks : List Block) : List (BlockEntry blocks) :=
  (List.finRange blocks.length).flatMap fun index =>
    (List.finRange (blocks.get index).slots.length).map fun number => ⟨index, number⟩

theorem sum_all {M : Type} [AddCommMonoid M] (term : BlockEntry blocks → M) :
    ((all blocks).map term).sum = ∑ entry, term entry := by
  have perBlock : ∀ indices : List (Fin blocks.length),
      ((indices.flatMap fun index =>
        (List.finRange (blocks.get index).slots.length).map fun number =>
          (⟨index, number⟩ : BlockEntry blocks)).map term).sum =
      (indices.map fun index => ∑ number, term ⟨index, number⟩).sum := by
    intro indices
    induction indices with
    | nil => rfl
    | cons index indices ih =>
        rw [List.flatMap_cons, List.map_append, List.sum_append, ih, List.map_map, List.map_cons,
          List.sum_cons, Fin.sum_univ_def]
        rfl
  rw [all, perBlock, Fintype.sum_sigma, Fin.sum_univ_def]

end BlockEntry

namespace Seed

variable {α : Type} {blocks : List Block}

def vector [Zero α] (blocks : List Block) (seed : Seed α) (entry : BlockEntry blocks) : α :=
  ((seed[entry.1.val]?).bind (·[entry.2.val]?)).getD 0

def ofVector (blocks : List Block) (vector : BlockEntry blocks → α) : Seed α :=
  List.ofFn fun index => List.ofFn fun number => vector ⟨index, number⟩

theorem getElem?_ofVector (vector : BlockEntry blocks → α) (index : Fin blocks.length) :
    (ofVector blocks vector)[index.val]? = some (List.ofFn fun number => vector ⟨index, number⟩) := by
  simp [ofVector]

theorem block_ofVector (vector : BlockEntry blocks → α) (index : Fin blocks.length) :
    (ofVector blocks vector).block index = .ok (List.ofFn fun number => vector ⟨index, number⟩) := by
  rw [Seed.block, getElem?_ofVector]

theorem entry_ofVector (vector : BlockEntry blocks → α) (entry : BlockEntry blocks) :
    (ofVector blocks vector).entry entry.1 entry.2 = .ok (vector entry) := by
  rw [Seed.entry, getElem?_ofVector]
  simp

@[simp] theorem vector_ofVector [Zero α] (vector : BlockEntry blocks → α) :
    (ofVector blocks vector).vector blocks = vector := by
  funext entry
  simp [Seed.vector, getElem?_ofVector]

theorem ofVector_slots (value : Nat → α) :
    (blocks.map fun block => block.slots.map value) =
      ofVector blocks fun entry => value entry.slot := by
  refine List.ext_getElem? fun index => ?_
  by_cases inside : index < blocks.length
  · rw [List.getElem?_map, List.getElem?_eq_getElem inside, Option.map_some,
      getElem?_ofVector _ ⟨index, inside⟩]
    congr 1
    exact List.ext_get (by simp) fun number _ _ => by simp [BlockEntry.slot]
  · simp [ofVector, inside]

theorem shaped_ofVector (vector : BlockEntry blocks → α) :
    Session.Shaped blocks (ofVector blocks vector) := by
  rw [Session.Shaped, List.forall₂_iff_get]
  refine ⟨by simp [ofVector], fun index inside _ => by simp [ofVector]⟩

theorem ofVector_vector [Zero α] {seed : Seed α} (shaped : Session.Shaped blocks seed) :
    ofVector blocks (seed.vector blocks) = seed := by
  rw [Session.Shaped, List.forall₂_iff_get] at shaped
  rcases shaped with ⟨length, each⟩
  refine List.ext_get (by simp [ofVector, length]) fun index inside inside' => ?_
  have blockInside : index < blocks.length := length ▸ inside'
  have entries := each index blockInside inside'
  simp only [List.get_eq_getElem] at entries
  refine List.ext_get (by simp [ofVector, entries]) fun number _ numberInside => ?_
  simp only [List.get_eq_getElem] at numberInside
  simp [ofVector, vector, inside', numberInside]

theorem exists_ofVector (default : α) {seed : Seed α} (shaped : Session.Shaped blocks seed) :
    ∃ vector, seed = ofVector blocks vector :=
  let _ : Zero α := ⟨default⟩
  ⟨seed.vector blocks, (ofVector_vector shaped).symm⟩

theorem zip_ofFn {β : Type} (elements : List α) (function : Fin elements.length → β) :
    elements.zip (List.ofFn function) =
      (List.finRange elements.length).map fun index => (elements.get index, function index) := by
  calc elements.zip (List.ofFn function)
      = ((List.finRange elements.length).map elements.get).zip
          ((List.finRange elements.length).map function) := by
        rw [List.map_get_finRange, List.ofFn_eq_map]
    _ = _ := List.zip_map'

theorem seedSlots_ofVector (vector : BlockEntry blocks → α) :
    seedSlots blocks (ofVector blocks vector) =
      (BlockEntry.all blocks).map fun entry => (entry.slot, vector entry) := by
  rw [seedSlots, ofVector, zip_ofFn, BlockEntry.all, List.flatMap_map, List.map_flatMap]
  refine List.flatMap_congr fun index _ => ?_
  rw [List.map_map]
  exact zip_ofFn _ _

theorem unitSeed_eq_ofVector (zero one : α) (index : Nat) (chosen : List Nat) :
    unitSeed zero one blocks index chosen = ofVector blocks fun entry =>
      if entry.1.val = index ∧ entry.2.val ∈ chosen then one else zero := by
  refine List.ext_get (by simp [unitSeed, ofVector]) fun index inside inside' => ?_
  refine List.ext_get (by simp [unitSeed, ofVector]) fun number _ _ => ?_
  simp [unitSeed, ofVector]

theorem unitSeed_eq [Zero α] [One α] (entry : BlockEntry blocks) :
    unitSeed 0 1 blocks entry.1 [entry.2.val] = ofVector blocks (Pi.single entry (1 : α)) := by
  rw [unitSeed_eq_ofVector]
  congr 1
  funext other
  simp [Pi.single_apply, BlockEntry.eq_iff]

theorem shaped_unitSeed (zero one : α) (index : Nat) (chosen : List Nat) :
    Session.Shaped blocks (unitSeed zero one blocks index chosen) := by
  rw [unitSeed_eq_ofVector]
  exact shaped_ofVector _

end Seed

theorem Session.shaped_unitSeeds {α : Type} {session : Session α} {blocks : List Block} {index : Nat}
    {chosen : List (List Nat)} :
    ∀ seed ∈ session.unitSeeds blocks index chosen, Shaped blocks seed := by
  intro seed member
  rcases List.mem_map.mp member with ⟨entries, _, rfl⟩
  exact Seed.shaped_unitSeed _ _ _ _

end Autodiff
