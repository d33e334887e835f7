import Autodiff.Proofs.Tape.Duality

/-!
# Derivative sweeps as functions

A derivative sweep adds and multiplies elements and asks whether an element is known to be zero. If an
algebra computes these with functions (`Algebra.Computes`), of which no law is assumed, then every sweep is a
function on arrays of slots: pushing tangents forward over a record and pulling adjoints back. A sweep over many
directions treats each direction on its own.
-/

namespace Autodiff

variable {α : Type}

/-- A slot is changed only by the entries for this slot, in order. -/
theorem foldl_update_apply (combine : α → α → α) (entries : List (Nat × α)) (values : Nat → α)
    (slot : Nat) :
    entries.foldl (fun values entry =>
        Function.update values entry.1 (combine (values entry.1) entry.2)) values slot =
      (entries.filter (·.1 = slot)).foldl (fun total entry => combine total entry.2)
        (values slot) := by
  induction entries generalizing values with
  | nil => rfl
  | cons entry entries ih =>
      refine (ih _).trans ?_
      by_cases same : entry.1 = slot
      · simp [same]
      · simp [same, Function.update_of_ne (Ne.symm same)]

/-- The operations of derivative sweeps. -/
structure Arithmetic (α : Type) where
  zero : α
  add : α → α → α
  mul : α → α → α
  isZero : α → Bool

/-- Derivative sweeps over the algebra compute with given operations. What the partials are is left open. -/
structure Algebra.Computes (arithmetic : Arithmetic α) (algebra : Algebra (Except Error) α) :
    Prop where
  zero : algebra.zero = arithmetic.zero
  add : ∀ left right, algebra.add left right = .ok (arithmetic.add left right)
  mul : ∀ left right, algebra.mul left right = .ok (arithmetic.mul left right)
  isZero : ∀ element, algebra.isZero element = .ok (arithmetic.isZero element)
  partials : ∀ op first second result,
    ∃ weights, algebra.partials op first second result = .ok weights

namespace Arithmetic

variable (arithmetic : Arithmetic α)

/-- The share of one operand in a tangent. -/
def share (weight tangent : α) : α :=
  if arithmetic.isZero tangent then arithmetic.zero else arithmetic.mul weight tangent

def tangent (instruction : Instruction) (weights : α × α) (tangents : Nat → α) : α :=
  match instruction.op with
  | .const => arithmetic.zero
  | .unary _ => arithmetic.share weights.1 (tangents instruction.fst)
  | .binary _ =>
      let total := arithmetic.share weights.1 (tangents instruction.fst)
      if arithmetic.isZero (tangents instruction.snd) then total
      else arithmetic.add total (arithmetic.mul weights.2 (tangents instruction.snd))

def push (instruction : Instruction) (weights : α × α) (tangents : Nat → α) : Nat → α :=
  Function.update tangents instruction.out (arithmetic.tangent instruction weights tangents)

/-- Adds elements to their slots, one after the other. -/
def deposit (entries : List (Nat × α)) (values : Nat → α) : Nat → α :=
  entries.foldl (fun values entry =>
    Function.update values entry.1 (arithmetic.add (values entry.1) entry.2)) values

/-- What the operands of an instruction get from the adjoint of its result. -/
def shares (instruction : Instruction) (weights : α × α) (adjoint : α) : List (Nat × α) :=
  if arithmetic.isZero adjoint then []
  else (instruction.shares weights).map fun share => (share.1, arithmetic.mul share.2 adjoint)

/-- The adjoints before an instruction. -/
def pull (instruction : Instruction) (weights : α × α) (adjoints : Nat → α) : Nat → α :=
  arithmetic.deposit (arithmetic.shares instruction weights (adjoints instruction.out))
    (Function.update adjoints instruction.out arithmetic.zero)

def pushAll (record : Record α) (tangents : Nat → α) : Nat → α :=
  record.foldr (fun recorded tangents => arithmetic.push recorded.1 recorded.2 tangents) tangents

def pullAll (record : Record α) (adjoints : Nat → α) : Nat → α :=
  record.foldl (fun adjoints recorded => arithmetic.pull recorded.1 recorded.2 adjoints) adjoints

def adjointsOf (blocks : List Block) (seed : Seed α) : Nat → α :=
  arithmetic.deposit (seedSlots blocks seed) fun _ => arithmetic.zero

end Arithmetic

namespace Algebra.Computes

variable {arithmetic : Arithmetic α} {algebra : Algebra (Except Error) α} {size slot : Nat}

/-! ## Tangents -/

variable (computes : algebra.Computes arithmetic)
include computes

theorem tangentShare (weight tangent : α) :
    Instruction.tangentShare algebra weight tangent = .ok (arithmetic.share weight tangent) := by
  rw [Instruction.tangentShare, computes.isZero, ok_bind, Arithmetic.share]
  split
  · rw [computes.zero]
    rfl
  · exact computes.mul weight tangent

variable {instruction : Instruction}

theorem tangent (below : instruction.Below size) (weights : α × α) (tangents : Nat → α) :
    instruction.tangent algebra weights (slotArray size tangents) =
      .ok (arithmetic.tangent instruction weights tangents) := by
  rcases instruction with ⟨_ | op | op, out, fst, snd, literal⟩
  · simp only [Instruction.tangent, Arithmetic.tangent, computes.zero]
    rfl
  · have fstInside := below.unary rfl
    simp only [Instruction.tangent, Arithmetic.tangent, readSlot_slotArray fstInside, pure_bind,
      computes.tangentShare]
  · rcases below.binary rfl with ⟨fstInside, sndInside⟩
    simp only [Instruction.tangent, Arithmetic.tangent, readSlot_slotArray fstInside,
      readSlot_slotArray sndInside, pure_bind, computes.tangentShare, ok_bind, computes.isZero]
    split
    · rfl
    · simp only [computes.mul, computes.add, ok_bind]

theorem pushForward (below : instruction.Below size) (weights : α × α) (tangents : Nat → α) :
    Autodiff.pushForward algebra instruction weights (slotArray size tangents) =
      .ok (slotArray size (arithmetic.push instruction weights tangents)) := by
  rw [Autodiff.pushForward, computes.tangent below, ok_bind, writeSlot_slotArray below.out]
  rfl

/-! ## Adjoints -/

theorem accumulate (inside : slot < size) (values : Nat → α) (share : α) :
    Instruction.accumulate algebra (slotArray size values) slot share =
      .ok (slotArray size (arithmetic.deposit [(slot, share)] values)) := by
  simp only [Instruction.accumulate, readSlot_slotArray inside, pure_bind, computes.add, ok_bind,
    writeSlot_slotArray inside]
  rfl

theorem accumulate_all {entries : List (Nat × α)} (inside : ∀ entry ∈ entries, entry.1 < size) (values : Nat → α) :
    entries.foldlM (fun array entry => Instruction.accumulate algebra array entry.1 entry.2)
      (slotArray size values) = .ok (slotArray size (arithmetic.deposit entries values)) := by
  induction entries generalizing values with
  | nil => rfl
  | cons entry entries ih =>
      rw [List.forall_mem_cons] at inside
      rw [List.foldlM_cons, computes.accumulate inside.1, ok_bind, ih inside.2]
      rfl

theorem pullBack (below : instruction.Below size) (weights : α × α) (adjoints : Nat → α) :
    instruction.pullBack algebra weights (slotArray size adjoints) =
      .ok (slotArray size (arithmetic.pull instruction weights adjoints)) := by
  rcases instruction with ⟨_ | op | op, out, fst, snd, literal⟩
  · simp only [Instruction.pullBack, Arithmetic.pull, Arithmetic.shares, Instruction.shares,
      readSlot_slotArray below.out, writeSlot_slotArray below.out, pure_bind, computes.zero,
      List.map_nil, ite_self]
    rfl
  · have fstInside := below.unary rfl
    simp only [Instruction.pullBack, Arithmetic.pull, Arithmetic.shares, Instruction.shares,
      readSlot_slotArray below.out, writeSlot_slotArray below.out, pure_bind, computes.zero,
      computes.isZero, ok_bind]
    split
    · rfl
    · simp only [computes.mul, ok_bind, computes.accumulate fstInside, List.map_cons, List.map_nil]
  · rcases below.binary rfl with ⟨fstInside, sndInside⟩
    simp only [Instruction.pullBack, Arithmetic.pull, Arithmetic.shares, Instruction.shares,
      readSlot_slotArray below.out, writeSlot_slotArray below.out, pure_bind, computes.zero,
      computes.isZero, ok_bind]
    split
    · rfl
    · simp only [computes.mul, ok_bind, computes.accumulate fstInside,
        computes.accumulate sndInside, List.map_cons, List.map_nil]
      rfl

/-! ## Seeds -/

theorem scatter_eq {blocks : List Block} (below : SlotsBelow size blocks) (seed : Seed α) :
    scatter algebra size blocks seed =
      .ok (slotArray size (stored arithmetic.zero blocks seed)) := by
  rw [scatter, computes.zero, replicate_eq_slotArray]
  exact writeSlot_all (seedSlots_below below seed)

theorem scatterAdd_eq {blocks : List Block} (below : SlotsBelow size blocks) (seed : Seed α) :
    scatterAdd algebra size blocks seed =
      .ok (slotArray size (arithmetic.adjointsOf blocks seed)) := by
  rw [scatterAdd, computes.zero, replicate_eq_slotArray]
  exact computes.accumulate_all (seedSlots_below below seed) _

/-! ## Records -/

variable {record : Record α}

theorem adjoint_eq (below : record.Below size) (adjoints : Nat → α) :
    record.adjoint algebra (slotArray size adjoints) =
      .ok (slotArray size (arithmetic.pullAll record adjoints)) := by
  induction record generalizing adjoints with
  | nil => rfl
  | cons recorded record ih =>
      rw [Record.Below, List.forall_mem_cons] at below
      rw [Record.adjoint, List.foldlM_cons, computes.pullBack below.1, ok_bind]
      exact ih below.2 _

theorem adjoints_eq (below : record.Below size) (directions : List (Nat → α)) :
    record.adjoints algebra (directions.map (slotArray size)) =
      .ok ((directions.map (arithmetic.pullAll record)).map (slotArray size)) := by
  induction record generalizing directions with
  | nil =>
      have unmoved : directions.map (arithmetic.pullAll []) = directions := List.map_id _
      rw [unmoved]
      rfl
  | cons recorded record ih =>
      rw [Record.Below, List.forall_mem_cons] at below
      have stepped : adjointStep algebra (directions.map (slotArray size)) recorded =
          .ok ((directions.map (arithmetic.pull recorded.1 recorded.2)).map (slotArray size)) := by
        rw [adjointStep, mapM_eq_ok]
        simp [List.forall₂_map_left_iff, List.forall₂_map_right_iff, List.forall₂_same,
          computes.pullBack below.1]
      rw [Record.adjoints, List.foldlM_cons, stepped, ok_bind]
      refine (ih below.2 _).trans ?_
      simp only [List.map_map]
      rfl

theorem push_eq (below : record.Below size) (tangents : Nat → α) :
    record.reverse.foldlM
        (fun tangents recorded => Autodiff.pushForward algebra recorded.1 recorded.2 tangents)
        (slotArray size tangents) = .ok (slotArray size (arithmetic.pushAll record tangents)) := by
  induction record with
  | nil => rfl
  | cons recorded record ih =>
      rw [Record.Below, List.forall_mem_cons] at below
      rw [List.reverse_cons, List.foldlM_append, ih below.2, ok_bind, List.foldlM_cons,
        computes.pushForward below.1, ok_bind]
      rfl

theorem tangentStep_eq (below : instruction.Below size) (index : Nat) (work : Array α) (record : Record α)
    (directions : List (Nat → α)) :
    tangentStep algebra
        (work, (directions.map (arithmetic.pushAll record)).map (slotArray size))
        (instruction, index) = (do
      let state ← recordStep algebra (work, record) (instruction, index)
      return (state.1, (directions.map (arithmetic.pushAll state.2)).map (slotArray size))) := by
  simp only [tangentStep, recordStep, bind_assoc, pure_bind]
  refine bind_congr fun step => bind_congr fun weights => ?_
  have moved : ((directions.map (arithmetic.pushAll record)).map (slotArray size)).mapM
      (Autodiff.pushForward algebra instruction weights) =
      .ok ((directions.map (arithmetic.pushAll ((instruction, weights) :: record))).map
        (slotArray size)) := by
    rw [mapM_eq_ok]
    simp [List.forall₂_map_left_iff, List.forall₂_map_right_iff, List.forall₂_same,
      computes.pushForward below, Arithmetic.pushAll]
  rw [moved, ok_bind]

variable {instructions : List Instruction}

/-- The sweep with tangents is the recording sweep, whose record then acts on every direction. -/
theorem tangents_eq (below : ∀ instruction ∈ instructions, instruction.Below size) (start : Nat) (work : Array α)
    (record : Record α) (directions : List (Nat → α)) :
    (instructions.zipIdx start).foldlM (tangentStep algebra)
        (work, (directions.map (arithmetic.pushAll record)).map (slotArray size)) = (do
      let state ← (instructions.zipIdx start).foldlM (recordStep algebra) (work, record)
      return (state.1, (directions.map (arithmetic.pushAll state.2)).map (slotArray size))) := by
  induction instructions generalizing start work record with
  | nil => rfl
  | cons instruction instructions ih =>
      rw [List.forall_mem_cons] at below
      rw [List.zipIdx_cons, List.foldlM_cons, List.foldlM_cons, computes.tangentStep_eq below.1,
        bind_assoc, bind_assoc]
      refine bind_congr fun state => ?_
      rw [pure_bind]
      exact ih below.2 (start + 1) state.1 state.2

theorem exists_stepPartials (instruction : Instruction) (step : Step α) :
    ∃ weights, instruction.stepPartials algebra step = .ok weights := by
  unfold Instruction.stepPartials
  split
  · exact ⟨_, rfl⟩
  · apply computes.partials

/-- The recording sweep fails where the primal sweep fails, and otherwise ends with the same array. -/
theorem primal_eq_recorded (instructions : List Instruction) (start : Nat) (work : Array α) (before : Record α) :
    (instructions.zipIdx start).foldlM (primalStep algebra) work =
      Prod.fst <$> (instructions.zipIdx start).foldlM (recordStep algebra) (work, before) := by
  induction instructions generalizing start work before with
  | nil => rfl
  | cons instruction instructions ih =>
      simp only [List.zipIdx_cons, List.foldlM_cons, primalStep, recordStep, bind_assoc, map_bind,
        pure_bind]
      apply bind_congr
      intro step
      rcases computes.exists_stepPartials instruction step with ⟨weights, weighted⟩
      rw [weighted, ok_bind]
      exact bind_congr fun work => ih (start + 1) work ((instruction, weights) :: before)

theorem exists_recorded {start : Nat} {work final : Array α}
    (ran : (instructions.zipIdx start).foldlM (primalStep algebra) work = .ok final) (before : Record α) :
    ∃ record : Record α,
      (instructions.zipIdx start).foldlM (recordStep algebra) (work, before) = .ok (final, record) := by
  rw [computes.primal_eq_recorded instructions start work before, map_eq_pure_bind, bind_eq_ok] at ran
  rcases ran with ⟨⟨_, record⟩, recorded, isFinal⟩
  cases isFinal
  exact ⟨record, recorded⟩

end Algebra.Computes

end Autodiff
