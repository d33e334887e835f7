import Autodiff.Proofs.Session.ForwardDerivative
import Autodiff.Proofs.Tape.Polynomials

/-!
# Second derivatives

Over the dual numbers of the dual numbers there are two infinitesimals that square to zero. Executing a
polynomial tape there, at a point with one infinitesimal added to each of two entries, gives mixed second
derivatives as the coefficients of their product. Exchanging the two infinitesimals is a homomorphism, so the
order of the two entries does not matter.
-/

namespace Autodiff

open TrivSqZeroExt Matrix

/-! ## Two infinitesimals -/

section Infinitesimals

variable {K : Type} [CommRing K]

def firstEps : DualNumber (DualNumber K) :=
  DualNumber.eps

def secondEps : DualNumber (DualNumber K) :=
  inl DualNumber.eps

/-- The coefficient of the product of the infinitesimals. -/
def mixed (number : DualNumber (DualNumber K)) : K :=
  number.snd.snd

theorem firstEps_mul_self : (firstEps : DualNumber (DualNumber K)) * firstEps = 0 :=
  DualNumber.eps_mul_eps

theorem secondEps_mul_self : (secondEps : DualNumber (DualNumber K)) * secondEps = 0 := by
  rw [secondEps, ← inl_mul, DualNumber.eps_mul_eps, inl_zero]

/-- Every number is a unique combination of one, the two infinitesimals and their product. -/
theorem eq_combination_iff {number : DualNumber (DualNumber K)} {constant first second product : K} :
    number = inl (inl constant) + inl (inl first) * firstEps + inl (inl second) * secondEps +
        inl (inl product) * (firstEps * secondEps) ↔
      number.fst.fst = constant ∧ number.snd.fst = first ∧ number.fst.snd = second ∧
        mixed number = product := by
  constructor
  · rintro rfl
    simp [firstEps, secondEps, mixed]
  · rintro ⟨rfl, rfl, rfl, rfl⟩
    ext <;> simp [firstEps, secondEps, mixed]

abbrev RingEndomorphism (R : Type) [CommRing R] : Type :=
  R →+* R

def exchange : RingEndomorphism (DualNumber (DualNumber K)) where
  toFun number := dual (dual number.fst.fst number.snd.fst) (dual number.fst.snd number.snd.snd)
  map_one' := by ext <;> simp
  map_zero' := by ext <;> simp
  map_add' left right := by ext <;> simp
  map_mul' left right := by
    ext
    · simp
    · simp
    · simp
    · simp
      ring

@[simp] theorem exchange_inl (element : K) : exchange (inl (inl element)) = inl (inl element) := by
  ext <;> simp [exchange]

@[simp] theorem exchange_firstEps : exchange (firstEps : DualNumber (DualNumber K)) = secondEps := by
  ext <;> simp [exchange, firstEps, secondEps]

@[simp] theorem exchange_secondEps : exchange (secondEps : DualNumber (DualNumber K)) = firstEps := by
  ext <;> simp [exchange, firstEps, secondEps]

@[simp] theorem mixed_exchange (number : DualNumber (DualNumber K)) :
    mixed (exchange number) = mixed number := by
  simp [exchange, mixed]

end Infinitesimals

/-! ## Perturbed points -/

section Perturbed

variable {K : Type} [CommRing K] {blocks : List Block}

/-- A point with one infinitesimal added to each of two entries of a block. -/
def perturbed (point : Seed K) (index row column : Nat) : Seed (DualNumber (DualNumber K)) :=
  point.mapIdx fun number entries => entries.mapIdx fun entry value =>
    inl (inl value) + (if number = index ∧ entry = row then firstEps else 0) +
      (if number = index ∧ entry = column then secondEps else 0)

theorem map_exchange_perturbed (point : Seed K) (index row column : Nat) :
    (perturbed point index row column).map (List.map exchange) = perturbed point index column row := by
  have exchanged : ∀ (value : K) (isRow isColumn : Prop) [Decidable isRow] [Decidable isColumn],
      exchange (inl (inl value) + (if isRow then firstEps else 0) + (if isColumn then secondEps else 0)) =
        inl (inl value) + (if isColumn then firstEps else 0) + (if isRow then secondEps else 0) := by
    intro value isRow isColumn _ _
    rw [map_add, map_add, exchange_inl, add_right_comm]
    split_ifs <;> simp only [map_zero, exchange_firstEps, exchange_secondEps]
  apply List.ext_getElem?
  intro number
  simp only [perturbed, List.getElem?_map, List.getElem?_mapIdx, Option.map_map, Function.comp_def]
  congr 1
  funext entries
  apply List.ext_getElem?
  intro entry
  simp only [List.getElem?_map, List.getElem?_mapIdx, Option.map_map, Function.comp_def, exchanged]

/-- The second infinitesimal attaches a direction to the point, and the first attaches another one to that. -/
theorem perturbed_eq {point : Seed K} (shaped : Session.Shaped blocks point) (index row column : Nat) :
    perturbed point index row column =
      dualized (dualized point (unitSeed 0 1 blocks index [column])) (unitSeed 0 1 blocks index [row]) := by
  rw [← Seed.ofVector_vector shaped]
  simp only [Seed.unitSeed_eq_ofVector, dualized_ofVector]
  have spelled : ∀ vector : BlockEntry blocks → K, perturbed (Seed.ofVector blocks vector) index row column =
      Seed.ofVector blocks fun entry => inl (inl (vector entry)) +
        (if entry.1.val = index ∧ entry.2.val = row then firstEps else 0) +
        (if entry.1.val = index ∧ entry.2.val = column then secondEps else 0) := by
    intro vector
    refine List.ext_get (by simp [perturbed, Seed.ofVector]) fun number _ _ => ?_
    refine List.ext_get (by simp [perturbed, Seed.ofVector]) fun entry _ _ => ?_
    simp [perturbed, Seed.ofVector]
  rw [spelled]
  congr 1
  funext entry
  simp only [List.mem_singleton]
  split_ifs <;> ext <;> simp [firstEps, secondEps]

theorem shaped_perturbed {point : Seed K} (shaped : Session.Shaped blocks point) (index row column : Nat) :
    Session.Shaped blocks (perturbed point index row column) := by
  rw [perturbed_eq shaped]
  exact shaped_dualized (shaped_dualized shaped (Seed.shaped_unitSeed _ _ _ _)) (Seed.shaped_unitSeed _ _ _ _)

end Perturbed

/-! ## Derivatives of polynomial tapes -/

namespace Tape

variable {R S : Type} [CommRing R] [CommRing S] {tape : Tape} {point : Seed R}

/-- What the slots of a tape hold in the end, computed in a ring. -/
def inRing (tape : Tape) (literal : Float → R) (point : Seed R) : Nat → R :=
  executeAll (.ofRing literal) tape.instructions (stored 0 tape.inputs point)

/-- The partials of all instructions, computed in a ring. -/
def ringRecord (tape : Tape) (literal : Float → R) (point : Seed R) : Record R :=
  recordAll (polynomialRules R) (.ofRing literal) tape.instructions (stored 0 tape.inputs point) []

theorem inRing_hom (hom : R →+* S) (tape : Tape) (literal : Float → R) (point : Seed R) (slot : Nat) :
    tape.inRing (fun number => hom (literal number)) (point.map (List.map hom)) slot =
      hom (tape.inRing literal point slot) := by
  have loaded : stored 0 tape.inputs (point.map (List.map hom)) =
      fun slot => hom (stored 0 tape.inputs point slot) := by
    rw [← stored_map, map_zero]
  rw [inRing, loaded, executeAll_hom]
  rfl

theorem sensitivity_eq_snd (valid : tape.Valid) (shaped : Session.Shaped tape.inputs point)
    (literal : Float → R) (output : BlockEntry tape.outputs) (input : BlockEntry tape.inputs) :
    tape.sensitivity (tape.ringRecord literal point) output input =
      (tape.inRing (fun number => inl (literal number))
        (dualized point (unitSeed 0 1 tape.inputs input.1 [input.2.val])) output.slot).snd := by
  let direction : Seed R := unitSeed 0 1 tape.inputs input.1 [input.2.val]
  have directionShaped : Session.Shaped tape.inputs direction := Seed.shaped_unitSeed _ _ _ _
  have records : tape.Records (tape.ringRecord literal point) := records_recordAll ..
  have lifted := executeAll_dual literal tape.instructions (stored 0 tape.inputs point)
    (spread (seedSlots tape.inputs direction)) []
  have unit : direction = Seed.ofVector tape.inputs (Pi.single input 1) := Seed.unitSeed_eq input
  calc tape.sensitivity (tape.ringRecord literal point) output input
      = (tape.sensitivity (tape.ringRecord literal point) *ᵥ direction.vector tape.inputs) output := by
        rw [unit, Seed.vector_ofVector, mulVec_single_one]
        rfl
    _ = (tape.ringRecord literal point).pushed (spread (seedSlots tape.inputs direction)) output.slot :=
        (pushed_seed valid (records.below valid) directionShaped output).symm
    _ = (tape.inRing (fun number => inl (literal number)) (dualized point direction) output.slot).snd := by
        rw [inRing, stored_inputs valid (shaped_dualized shaped directionShaped),
          spread_dualized shaped directionShaped, ← stored_inputs valid shaped]
        exact ((congrArg TrivSqZeroExt.snd (congrFun lifted output.slot)).trans (snd_dual _ _)).symm

/-- The derivative of a derivative is the mixed part of one execution. -/
theorem snd_sensitivity_eq_mixed (valid : tape.Valid) (shaped : Session.Shaped tape.inputs point)
    (literal : Float → R) (output : BlockEntry tape.outputs) (input : BlockEntry tape.inputs) (column : Nat) :
    (tape.sensitivity (tape.ringRecord (fun number => inl (literal number))
        (dualized point (unitSeed 0 1 tape.inputs input.1 [column]))) output input).snd =
      mixed (tape.inRing (fun number => inl (inl (literal number)))
        (perturbed point input.1 input.2 column) output.slot) := by
  rw [sensitivity_eq_snd valid (shaped_dualized shaped (Seed.shaped_unitSeed _ _ _ _)), perturbed_eq shaped]
  rfl

theorem mixed_symmetric (tape : Tape) (literal : Float → R) (point : Seed R) (index row column slot : Nat) :
    mixed (tape.inRing (fun number => inl (inl (literal number))) (perturbed point index row column) slot) =
      mixed (tape.inRing (fun number => inl (inl (literal number)))
        (perturbed point index column row) slot) := by
  have exchanged := tape.inRing_hom exchange (fun number => inl (inl (literal number)))
    (perturbed point index row column) slot
  simp only [exchange_inl, map_exchange_perturbed] at exchanged
  rw [exchanged, mixed_exchange]

end Tape

end Autodiff
