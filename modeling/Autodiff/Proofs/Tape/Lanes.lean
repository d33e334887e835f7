import Autodiff.Proofs.Tape.PureSweeps
import Autodiff.Tape.Lanes

/-!
# Lanes do not touch each other

Different directions of a slot have different places, so what is done in one lane does not show in the
others. An array that holds many directions (`Lanes`) is therefore swept like one array per direction:
every operation on the places of a lane is the operation on the slots of its direction, and the lanes are
taken one after the other (`Lanes.foldlM`).
-/

namespace Autodiff

variable {instruction : Instruction} {blocks : List Block} {α : Type} {size width direction : Nat}

/-! ## Places -/

theorem lane_lt (direct : direction < width) {slot : Nat} (inside : slot < size) :
    lane width direction slot < size * width := by
  have next : (slot + 1) * width ≤ size * width := Nat.mul_le_mul_right width inside
  rw [Nat.succ_mul] at next
  simp only [lane]
  omega

theorem lane_injective (direct : direction < width) : Function.Injective (lane width direction) := by
  intro first second equal
  simp only [lane, Nat.add_right_cancel_iff] at equal
  exact Nat.eq_of_mul_eq_mul_right (by omega) equal

theorem lane_mod (direct : direction < width) (slot : Nat) :
    lane width direction slot % width = direction := by
  simp only [lane, Nat.mul_add_mod_self_right]
  exact Nat.mod_eq_of_lt direct

theorem lane_ne (direct : direction < width) {other : Nat} (otherDirect : other < width)
    (apart : other ≠ direction) (slot place : Nat) :
    lane width other place ≠ lane width direction slot := by
  intro equal
  apply apart
  rw [← lane_mod otherDirect place, equal, lane_mod direct]

@[simp] theorem Instruction.operands_inLane (instruction : Instruction) :
    (instruction.inLane width direction).operands =
      instruction.operands.map (lane width direction) := by
  rcases instruction with ⟨_ | op | op, out, fst, snd, literal⟩ <;> rfl

theorem Instruction.Below.inLane (below : instruction.Below size) (direct : direction < width) :
    (instruction.inLane width direction).Below (size * width) where
  out := lane_lt direct below.out
  operands := by
    simp only [Instruction.operands_inLane, List.forall_mem_map]
    intro operand member
    exact lane_lt direct (below.operands operand member)

theorem SlotsBelow.inLane (below : SlotsBelow size blocks) (direct : direction < width) :
    SlotsBelow (size * width) (blocks.map (Block.inLane width direction)) := by
  simp only [SlotsBelow, List.forall_mem_map, Block.inLane]
  intro block blockMem slot slotMem
  exact lane_lt direct (below block blockMem slot slotMem)

theorem seedSlots_inLane (blocks : List Block) (seed : Seed α) :
    seedSlots (blocks.map (Block.inLane width direction)) seed =
      (seedSlots blocks seed).map fun entry => (lane width direction entry.1, entry.2) := by
  simp only [seedSlots, List.zip_map_left, List.flatMap_map, List.map_flatMap, Prod.map_fst,
    Prod.map_snd, id_eq, Block.inLane]
  rfl

/-! ## Operations in one lane -/

/-- What is done to an array is done in one lane only, where it is what is done to the slots of the
direction. -/
def InLane (width direction : Nat) (act move : (Nat → α) → Nat → α) : Prop :=
  ∀ value, act value ∘ lane width direction = move (value ∘ lane width direction) ∧
    ∀ other < width, other ≠ direction → act value ∘ lane width other = value ∘ lane width other

namespace InLane

theorem update (direct : direction < width) (slot : Nat) (change : α → α) :
    InLane width direction
      (fun value => Function.update value (lane width direction slot)
        (change (value (lane width direction slot))))
      (fun plane => Function.update plane slot (change (plane slot))) := by
  intro value
  constructor
  · exact Function.update_comp_eq_of_injective value (lane_injective direct) slot _
  · intro other otherDirect apart
    exact Function.update_comp_eq_of_forall_ne value _ fun place =>
      lane_ne direct otherDirect apart slot place

theorem comp {first firstMove second secondMove : (Nat → α) → Nat → α}
    (inner : InLane width direction first firstMove)
    (outer : InLane width direction second secondMove) :
    InLane width direction (fun value => second (first value))
      (fun plane => secondMove (firstMove plane)) := by
  intro value
  constructor
  · rw [(outer (first value)).1, (inner value).1]
  · intro other otherDirect apart
    rw [(outer (first value)).2 other otherDirect apart, (inner value).2 other otherDirect apart]

theorem foldl {ε : Type} {act move : (Nat → α) → ε → Nat → α} {entries : List ε}
    (each : ∀ entry ∈ entries, InLane width direction (act · entry) (move · entry)) :
    InLane width direction (fun value => entries.foldl act value)
      (fun plane => entries.foldl move plane) := by
  induction entries with
  | nil => exact fun value => ⟨rfl, fun _ _ _ => rfl⟩
  | cons entry entries ih =>
      rw [List.forall_mem_cons] at each
      exact each.1.comp (ih each.2)

theorem store (direct : direction < width) (entries : List (Nat × α)) :
    InLane width direction
      (fun value => (entries.map fun entry => (lane width direction entry.1, entry.2)).foldl
        (fun value entry => Function.update value entry.1 entry.2) value)
      (fun plane => entries.foldl (fun plane entry => Function.update plane entry.1 entry.2) plane) := by
  simp only [List.foldl_map]
  exact foldl fun entry _ => update direct entry.1 fun _ => entry.2

theorem deposit (arithmetic : Arithmetic α) (direct : direction < width) (entries : List (Nat × α)) :
    InLane width direction
      (arithmetic.deposit (entries.map fun entry => (lane width direction entry.1, entry.2)))
      (arithmetic.deposit entries) := by
  have folded := foldl fun entry (_ : entry ∈ entries) =>
    update direct entry.1 fun old => arithmetic.add old entry.2
  intro value
  simp only [Arithmetic.deposit, List.foldl_map]
  exact folded value

theorem pull (arithmetic : Arithmetic α) (direct : direction < width) (instruction : Instruction)
    (weights : α × α) :
    InLane width direction (arithmetic.pull (instruction.inLane width direction) weights)
      (arithmetic.pull instruction weights) := by
  intro value
  -- what is added depends on the adjoint, which is found in the lane
  have shared (adjoint : α) : arithmetic.shares (instruction.inLane width direction) weights adjoint =
      (arithmetic.shares instruction weights adjoint).map fun entry =>
        (lane width direction entry.1, entry.2) := by
    rcases instruction with ⟨_ | op | op, out, fst, snd, literal⟩ <;>
      simp only [Arithmetic.shares, Instruction.shares, Instruction.inLane] <;> split <;> rfl
  have reset := update direct instruction.out fun _ => arithmetic.zero
  have moved := reset.comp (deposit arithmetic direct
    (arithmetic.shares instruction weights (value (lane width direction instruction.out))))
  simp only [Arithmetic.pull, shared]
  exact moved value

end InLane

theorem Arithmetic.tangent_inLane (arithmetic : Arithmetic α) (instruction : Instruction)
    (weights : α × α) (value : Nat → α) :
    arithmetic.tangent (instruction.inLane width direction) weights value =
      arithmetic.tangent instruction weights (value ∘ lane width direction) := by
  rcases instruction with ⟨_ | op | op, out, fst, snd, literal⟩ <;> rfl

/-! ## Arrays of lanes -/

def Lanes (size : Nat) (planes : List (Nat → α)) (array : Array α) : Prop :=
  ∃ value, array = slotArray (size * planes.length) value ∧
    ∀ direction plane, planes[direction]? = some plane →
      value ∘ lane planes.length direction = plane

namespace Lanes

variable {planes : List (Nat → α)} {plane : Nat → α} {array : Array α}

theorem replicate (size width : Nat) (element : α) :
    Lanes size (List.replicate width fun _ => element) (Array.replicate (size * width) element) := by
  refine ⟨fun _ => element, ?_, ?_⟩
  · rw [List.length_replicate, replicate_eq_slotArray]
  · intro direction plane found
    rw [List.eq_of_mem_replicate (List.mem_of_getElem? found)]
    rfl

theorem direct (found : planes[direction]? = some plane) : direction < planes.length :=
  (List.getElem?_eq_some_iff.mp found).1

theorem step (lanes : Lanes size planes array) (found : planes[direction]? = some plane)
    {act move : (Nat → α) → Nat → α} (inLane : InLane planes.length direction act move)
    {outcome : Except Error (Array α)}
    (acts : ∀ value, array = slotArray (size * planes.length) value →
      outcome = .ok (slotArray (size * planes.length) (act value))) :
    ∃ after, outcome = .ok after ∧ Lanes size (planes.set direction (move plane)) after := by
  rcases lanes with ⟨value, isArray, holds⟩
  refine ⟨_, acts value isArray, act value, by rw [List.length_set], ?_⟩
  intro other otherPlane otherFound
  rw [List.length_set]
  rw [List.getElem?_set] at otherFound
  split at otherFound
  next same =>
    subst same
    rw [if_pos (direct found), Option.some.injEq] at otherFound
    rw [(inLane value).1, holds direction plane found, otherFound]
  next apart =>
    rw [(inLane value).2 other (direct otherFound) (Ne.symm apart)]
    exact holds other otherPlane otherFound

section Loops

variable {β : Type} {elements : List β} {run : Array α → β × Nat → Except Error (Array α)}
  {move : β → (Nat → α) → Nat → α}

section Each

variable (each : ∀ {element direction planes array plane}, planes.length = width →
    Lanes size planes array → planes[direction]? = some plane →
    ∃ after, run array (element, direction) = .ok after ∧
      Lanes size (planes.set direction (move element plane)) after)
include each

theorem foldlM_from (done : List (Nat → α))
    (counted : done.length + planes.length = width) (aligned : elements.length = planes.length)
    (lanes : Lanes size (done ++ planes) array) :
    ∃ after, (elements.zipIdx done.length).foldlM run array = .ok after ∧
      Lanes size (done ++ List.zipWith move elements planes) after := by
  induction elements generalizing done planes array with
  | nil =>
      obtain rfl := List.length_eq_zero_iff.mp aligned.symm
      exact ⟨array, rfl, lanes⟩
  | cons element elements ih =>
      rcases planes with _ | ⟨plane, planes⟩
      · simp at aligned
      have found : (done ++ plane :: planes)[done.length]? = some plane := by simp
      rcases each (by simpa using counted) lanes found with ⟨between, ran, moved⟩
      have placed : (done ++ plane :: planes).set done.length (move element plane) =
          (done ++ [move element plane]) ++ planes := by simp
      rw [placed] at moved
      have continued := ih (done ++ [move element plane])
        (by simpa [Nat.add_assoc, Nat.add_comm 1] using counted) (by simpa using aligned) moved
      rw [List.length_append, List.length_singleton, List.append_assoc] at continued
      rcases continued with ⟨after, rest, final⟩
      refine ⟨after, ?_, final⟩
      rw [List.zipIdx_cons, List.foldlM_cons, ran, ok_bind, rest]

theorem foldlM (counted : planes.length = width) (aligned : elements.length = planes.length)
    (lanes : Lanes size planes array) :
    ∃ after, elements.zipIdx.foldlM run array = .ok after ∧
      Lanes size (List.zipWith move elements planes) after :=
  foldlM_from each [] ((Nat.zero_add _).trans counted) aligned lanes

end Each

/-- A loop over one element per direction, which starts from a lane of zeros for each. -/
theorem foldlM_replicate (move : β → (Nat → α) → Nat → α) (zero : α)
    (each : ∀ {element direction planes array plane}, planes.length = elements.length →
      Lanes size planes array → planes[direction]? = some plane →
      ∃ after, run array (element, direction) = .ok after ∧
        Lanes size (planes.set direction (move element plane)) after) :
    ∃ after, elements.zipIdx.foldlM run (Array.replicate (size * elements.length) zero) = .ok after ∧
      Lanes size (elements.map fun element => move element fun _ => zero) after := by
  have zipped : List.zipWith move elements (List.replicate elements.length fun _ => zero) =
      elements.map fun element => move element fun _ => zero := by
    refine List.ext_getElem (by simp) fun index _ _ => ?_
    simp
  rw [← zipped]
  exact foldlM each List.length_replicate List.length_replicate.symm (replicate size _ zero)

end Loops

/-! ## The operations of the sweeps -/

theorem readLanes (below : SlotsBelow size blocks) (lanes : Lanes size planes array) :
    (Autodiff.readLanes planes.length blocks array : Except Error _) =
      .ok (planes.map fun plane => blocks.map fun block => block.slots.map plane) := by
  rcases lanes with ⟨value, rfl, holds⟩
  rw [Autodiff.readLanes, mapM_eq_ok, List.forall₂_map_right_iff]
  refine (forall₂_range planes).imp fun direction plane found => ?_
  rw [readBlocks_slotArray (below.inLane (direct found)), ← holds direction plane found]
  simp only [List.map_map, Function.comp_def, Block.inLane]
  rfl

theorem scatterLanes (below : SlotsBelow size blocks) (zero : α) (seeds : List (Seed α)) :
    ∃ after, (Autodiff.scatterLanes seeds.length blocks seeds
        (Array.replicate (size * seeds.length) zero) : Except Error _) = .ok after ∧
      Lanes size (seeds.map (stored zero blocks)) after := by
  refine foldlM_replicate (fun seed plane => (seedSlots blocks seed).foldl
    (fun plane entry => Function.update plane entry.1 entry.2) plane) zero ?_
  intro seed direction planes array plane counted lanes found
  have direct := direct found
  have stores := InLane.store direct (seedSlots blocks seed)
  rw [← seedSlots_inLane] at stores
  rw [← counted]
  refine lanes.step found stores ?_
  rintro value rfl
  exact writeSlot_all (seedSlots_below (below.inLane direct) seed)

variable {arithmetic : Arithmetic α} {algebra : Algebra (Except Error) α}
  (computes : algebra.Computes arithmetic)

include computes

theorem scatterAddLanes (below : SlotsBelow size blocks) (seeds : List (Seed α)) :
    ∃ after, Autodiff.scatterAddLanes algebra seeds.length blocks seeds
        (Array.replicate (size * seeds.length) algebra.zero) = .ok after ∧
      Lanes size (seeds.map (arithmetic.adjointsOf blocks)) after := by
  rw [computes.zero]
  refine foldlM_replicate (fun seed => arithmetic.deposit (seedSlots blocks seed)) arithmetic.zero ?_
  intro seed direction planes array plane counted lanes found
  have direct := direct found
  have deposits := InLane.deposit arithmetic direct (seedSlots blocks seed)
  rw [← seedSlots_inLane] at deposits
  rw [← counted]
  refine lanes.step found deposits ?_
  rintro value rfl
  exact computes.accumulate_all (seedSlots_below (below.inLane direct) seed) value

theorem pushLanes (below : instruction.Below size) (weights : α × α) (lanes : Lanes size planes array) :
    ∃ after, Autodiff.pushLanes algebra planes.length instruction weights array = .ok after ∧
      Lanes size (planes.map (arithmetic.push instruction weights)) after := by
  have moved : (List.range planes.length).mapM (fun direction =>
      (instruction.inLane planes.length direction).tangent algebra weights array) =
      .ok (planes.map (arithmetic.tangent instruction weights)) := by
    rcases lanes with ⟨value, rfl, holds⟩
    rw [mapM_eq_ok, List.forall₂_map_right_iff]
    refine (forall₂_range planes).imp fun direction plane found => ?_
    rw [computes.tangent (below.inLane (direct found)), arithmetic.tangent_inLane,
      holds direction plane found]
  have pushed : planes.map (arithmetic.push instruction weights) =
      List.zipWith (fun tangent plane => Function.update plane instruction.out tangent)
        (planes.map (arithmetic.tangent instruction weights)) planes := by
    rw [List.zipWith_map_left, List.zipWith_self]
    rfl
  rw [Autodiff.pushLanes, moved, ok_bind, pushed]
  refine foldlM ?_ rfl (by simp) lanes
  intro tangent direction others array plane counted lanes found
  rw [← counted]
  refine lanes.step found (InLane.update (direct found) instruction.out fun _ => tangent) ?_
  rintro value rfl
  exact writeSlot_slotArray (lane_lt (direct found) below.out) tangent

theorem pullLanes (below : instruction.Below size) (weights : α × α) (lanes : Lanes size planes array) :
    ∃ after, Autodiff.pullLanes algebra planes.length instruction weights array = .ok after ∧
      Lanes size (planes.map (arithmetic.pull instruction weights)) after := by
  have pulled : planes.map (arithmetic.pull instruction weights) =
      List.zipWith (fun _ => arithmetic.pull instruction weights) planes planes := by
    rw [List.zipWith_self]
  have directions : List.range planes.length = planes.zipIdx.map Prod.snd := by
    rw [List.zipIdx_map_snd, List.range_eq_range']
  rw [Autodiff.pullLanes, pulled, directions, List.foldlM_map]
  refine foldlM ?_ rfl rfl lanes
  intro _ direction others array plane counted lanes found
  rw [← counted]
  refine lanes.step found (InLane.pull arithmetic (direct found) instruction weights) ?_
  rintro value rfl
  exact computes.pullBack (below.inLane (direct found)) weights value

end Lanes

end Autodiff
