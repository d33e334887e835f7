import Autodiff.Proofs.Tape.Duality
import Autodiff.Proofs.Tape.Validity

/-!
# Sweeps stay inside their arrays

A sweep over a tape whose slots are all in range reads and writes inside its arrays: it keeps their
sizes, and it fails only where the algebra fails or does not accept a result. Each function of the
sweeps has one lemma that says so; the sweeps follow by the rule for loops.
-/

namespace Autodiff

variable {α : Type} {fails : Error → Prop}

/-- The operations of an algebra fail only in given ways, and results that are not accepted count as
one of them. -/
structure Algebra.Guarded (fails : Error → Prop) (algebra : Algebra (Except Error) α) : Prop where
  constant : ∀ literal, Ends fails (fun _ => True) (algebra.constant literal)
  eval : ∀ op first second, op ≠ .const → Ends fails (fun _ => True) (algebra.eval op first second)
  partials : ∀ op first second result, op ≠ .const →
    Ends fails (fun _ => True) (algebra.partials op first second result)
  add : ∀ left right, Ends fails (fun _ => True) (algebra.add left right)
  mul : ∀ left right, Ends fails (fun _ => True) (algebra.mul left right)
  isZero : ∀ element, Ends fails (fun _ => True) (algebra.isZero element)
  domain : ∀ index op, fails (.evaluation (.domain index op))

theorem Algebra.guarded_any (algebra : Algebra (Except Error) α) :
    algebra.Guarded fun _ => True where
  constant _ := .any _
  eval _ _ _ _ := .any _
  partials _ _ _ _ _ := .any _
  add _ _ := .any _
  mul _ _ := .any _
  isZero _ := .any _
  domain _ _ := trivial

/-! ## Slots -/

variable {blocks : List Block}

section Slots

variable {size slot : Nat} {array : Array α}

theorem ends_readSlot (inside : slot < size) (sized : array.size = size) :
    Ends fails (fun _ => True) (readSlot array slot : Except Error α) := by
  subst sized
  rw [readSlot_eq_pure (Array.getElem?_eq_getElem inside)]
  trivial

theorem ends_writeSlot (inside : slot < size) (sized : array.size = size) (element : α) :
    Ends fails (fun after => after.size = size) (writeSlot array slot element : Except Error _) := by
  subst sized
  rw [writeSlot_eq_pure element inside]
  exact Array.size_setIfInBounds

theorem ends_readSlots {slots : List Nat} (inside : ∀ slot ∈ slots, slot < size)
    (sized : array.size = size) :
    Ends fails (fun entries => entries.length = slots.length)
      (slots.mapM (readSlot array) : Except Error _) := by
  have each : ∀ slot ∈ slots, Ends fails (fun _ => True) (readSlot array slot : Except Error α) :=
    fun slot member => ends_readSlot (inside slot member) sized
  exact (Ends.mapM_all each).mono (fun _ => id) fun _ read => read.1

theorem ends_readBlocks (below : SlotsBelow size blocks) (sized : array.size = size) :
    Ends fails (List.Forall₂ (fun block entries => entries.length = block.slots.length) blocks)
      (readBlocks blocks array : Except Error _) := by
  apply Ends.mapM
  intro block member
  exact ends_readSlots (below block member) sized

theorem ends_readDirections (below : SlotsBelow size blocks) {arrays : List (Array α)}
    (sized : ∀ array ∈ arrays, array.size = size) :
    Ends fails (fun found => found.length = arrays.length ∧ ∀ vectors ∈ found,
        List.Forall₂ (fun block entries => entries.length = block.slots.length) blocks vectors)
      (arrays.mapM (readBlocks blocks) : Except Error _) := by
  apply Ends.mapM_all
  intro array member
  exact ends_readBlocks below (sized array member)

theorem ends_scatter (algebra : Algebra (Except Error) α) (below : SlotsBelow size blocks) (seed : Seed α) :
    Ends fails (fun array => array.size = size) (scatter algebra size blocks seed) := by
  refine Ends.foldlM (fun array sized entry member => ?_) Array.size_replicate
  exact ends_writeSlot (seedSlots_below below seed entry member) sized entry.2

end Slots

/-! ## Instructions -/

variable {work : Array α} {count : Nat} {directions : List (Array α)}

namespace Algebra.Guarded

variable {algebra : Algebra (Except Error) α} {size : Nat} {instruction : Instruction}

theorem ends_load (below : instruction.Below size) (sized : work.size = size) :
    Ends fails (fun _ => True) (instruction.load algebra work) := by
  unfold Instruction.load
  split
  next => trivial
  next op isUnary =>
    exact (ends_readSlot (below.unary isUnary) sized).bind fun _ _ => trivial
  next op isBinary =>
    rcases below.binary isBinary with ⟨fstInside, sndInside⟩
    refine (ends_readSlot fstInside sized).bind fun _ _ => ?_
    exact (ends_readSlot sndInside sized).bind fun _ _ => trivial

variable (guarded : algebra.Guarded fails)

include guarded

theorem ends_step (below : instruction.Below size) (index : Nat) (sized : work.size = size) :
    Ends fails (fun _ => True) (instruction.step algebra index work) := by
  refine (ends_load below sized).bind fun operands _ => ?_
  dsimp only
  split
  next => exact (guarded.constant _).bind fun _ _ => trivial
  next notConst =>
    refine (guarded.eval instruction.op _ _ ?_).bind fun result _ => ?_
    · exact fun isConst => notConst isConst
    split
    · trivial
    · exact guarded.domain index instruction.op

theorem ends_stepPartials (step : Step α) :
    Ends fails (fun _ => True) (instruction.stepPartials algebra step) := by
  unfold Instruction.stepPartials
  split
  next => trivial
  next notConst => exact guarded.partials instruction.op _ _ _ fun isConst => notConst isConst

theorem ends_tangentShare (weight tangent : α) :
    Ends fails (fun _ => True) (Instruction.tangentShare algebra weight tangent) := by
  refine (guarded.isZero tangent).bind fun zero _ => ?_
  split
  · trivial
  · apply guarded.mul

theorem ends_tangent (below : instruction.Below size) (weights : α × α) {tangents : Array α}
    (sized : tangents.size = size) :
    Ends fails (fun _ => True) (instruction.tangent algebra weights tangents) := by
  unfold Instruction.tangent
  split
  next => trivial
  next op isUnary =>
    refine (ends_readSlot (below.unary isUnary) sized).bind fun first _ => ?_
    apply guarded.ends_tangentShare
  next op isBinary =>
    rcases below.binary isBinary with ⟨fstInside, sndInside⟩
    refine (ends_readSlot fstInside sized).bind fun first _ => ?_
    refine (guarded.ends_tangentShare weights.1 first).bind fun total _ => ?_
    refine (ends_readSlot sndInside sized).bind fun second _ => ?_
    refine (guarded.isZero second).bind fun zero _ => ?_
    split
    · trivial
    · refine (guarded.mul weights.2 second).bind fun share _ => ?_
      apply guarded.add

theorem ends_pushForward (below : instruction.Below size) (weights : α × α) {tangents : Array α}
    (sized : tangents.size = size) :
    Ends fails (fun after => after.size = size)
      (pushForward algebra instruction weights tangents) :=
  (guarded.ends_tangent below weights sized).bind fun tangent _ =>
    ends_writeSlot below.out sized tangent

theorem ends_accumulate {slot : Nat} (inside : slot < size) {adjoints : Array α}
    (sized : adjoints.size = size) (share : α) :
    Ends fails (fun after => after.size = size)
      (Instruction.accumulate algebra adjoints slot share) := by
  refine (ends_readSlot inside sized).bind fun old _ => ?_
  refine (guarded.add old share).bind fun sum _ => ?_
  exact ends_writeSlot inside sized sum

theorem ends_pullBack (below : instruction.Below size) (weights : α × α) {adjoints : Array α}
    (sized : adjoints.size = size) :
    Ends fails (fun after => after.size = size)
      (instruction.pullBack algebra weights adjoints) := by
  refine (ends_readSlot below.out sized).bind fun adjoint _ => ?_
  refine (ends_writeSlot below.out sized algebra.zero).bind fun reset resized => ?_
  split
  next => exact resized
  next op isUnary =>
    refine (guarded.isZero adjoint).bind fun zero _ => ?_
    split
    · exact resized
    refine (guarded.mul weights.1 adjoint).bind fun share _ => ?_
    exact guarded.ends_accumulate (below.unary isUnary) resized share
  next op isBinary =>
    refine (guarded.isZero adjoint).bind fun zero _ => ?_
    split
    · exact resized
    refine (guarded.mul weights.1 adjoint).bind fun share _ => ?_
    rcases below.binary isBinary with ⟨fstInside, sndInside⟩
    refine (guarded.ends_accumulate fstInside resized share).bind fun first firstSized => ?_
    refine (guarded.mul weights.2 adjoint).bind fun share _ => ?_
    exact guarded.ends_accumulate sndInside firstSized share

/-! ## Seeds -/

theorem ends_scatterAdd (below : SlotsBelow size blocks) (seed : Seed α) :
    Ends fails (fun array => array.size = size) (scatterAdd algebra size blocks seed) := by
  refine Ends.foldlM (fun array sized entry member => ?_) Array.size_replicate
  exact guarded.ends_accumulate (seedSlots_below below seed entry member) sized entry.2

/-! ## Steps of the sweeps -/

theorem ends_primalStep (below : instruction.Below size) (index : Nat) (sized : work.size = size) :
    Ends fails (fun after => after.size = size) (primalStep algebra work (instruction, index)) :=
  (guarded.ends_step below index sized).bind fun step _ =>
    ends_writeSlot below.out sized step.result

theorem ends_recordStep (below : instruction.Below size) (index : Nat) {state : Array α × Record α}
    (holds : state.1.size = size ∧ state.2.Below size) :
    Ends fails (fun after => after.1.size = size ∧ after.2.Below size)
      (recordStep algebra state (instruction, index)) := by
  refine (guarded.ends_step below index holds.1).bind fun step _ => ?_
  refine (guarded.ends_stepPartials step).bind fun weights _ => ?_
  refine (ends_writeSlot below.out holds.1 step.result).bind fun work sized => ?_
  exact ⟨sized, List.forall_mem_cons.mpr ⟨below, holds.2⟩⟩

theorem ends_tangentStep (below : instruction.Below size) (index : Nat) {state : Array α × List (Array α)}
    (holds : state.1.size = size ∧ state.2.length = count ∧ ∀ array ∈ state.2, array.size = size) :
    Ends fails (fun after => after.1.size = size ∧ after.2.length = count ∧
        ∀ array ∈ after.2, array.size = size)
      (tangentStep algebra state (instruction, index)) := by
  rcases holds with ⟨sized, counted, allSized⟩
  refine (guarded.ends_step below index sized).bind fun step _ => ?_
  refine (guarded.ends_stepPartials step).bind fun weights _ => ?_
  have pushed := Ends.mapM_all fun array member =>
    guarded.ends_pushForward below weights (allSized array member)
  refine pushed.bind fun directions directed => ?_
  refine (ends_writeSlot below.out sized step.result).bind fun work resized => ?_
  exact ⟨resized, directed.1.trans counted, directed.2⟩

theorem ends_adjointStep (below : instruction.Below size) (weights : α × α)
    (holds : directions.length = count ∧ ∀ array ∈ directions, array.size = size) :
    Ends fails (fun after => after.length = count ∧ ∀ array ∈ after, array.size = size)
      (adjointStep algebra directions (instruction, weights)) := by
  have pulled := Ends.mapM_all fun array member =>
    guarded.ends_pullBack below weights (holds.2 array member)
  exact pulled.mono (fun _ => id) fun _ after => ⟨after.1.trans holds.1, after.2⟩

end Algebra.Guarded

/-! ## Sweeps -/

namespace Tape.Bounded

variable {algebra : Algebra (Except Error) α} {tape : Tape}

variable (bounded : tape.Bounded) (guarded : algebra.Guarded fails)

include bounded guarded

theorem ends_primal (sized : work.size = tape.numSlots) :
    Ends fails (fun after => after.size = tape.numSlots) (tape.primal algebra work) := by
  refine Ends.foldlM (fun work sized numbered member => ?_) sized
  have below := bounded.instructions numbered.1 (List.fst_mem_of_mem_zipIdx member)
  exact guarded.ends_primalStep below numbered.2 sized

theorem ends_recorded (sized : work.size = tape.numSlots) :
    Ends fails (fun after => after.1.size = tape.numSlots ∧ after.2.Below tape.numSlots)
      (tape.recorded algebra work) := by
  refine Ends.foldlM (fun state holds numbered member => ?_) ⟨sized, by simp [Record.Below]⟩
  have below := bounded.instructions numbered.1 (List.fst_mem_of_mem_zipIdx member)
  exact guarded.ends_recordStep below numbered.2 holds

theorem ends_tangents (sized : work.size = tape.numSlots)
    (holds : directions.length = count ∧ ∀ array ∈ directions, array.size = tape.numSlots) :
    Ends fails (fun after => after.1.size = tape.numSlots ∧ after.2.length = count ∧
        ∀ array ∈ after.2, array.size = tape.numSlots)
      (tape.tangents algebra work directions) := by
  refine Ends.foldlM (fun state holds numbered member => ?_) ⟨sized, holds⟩
  have below := bounded.instructions numbered.1 (List.fst_mem_of_mem_zipIdx member)
  exact guarded.ends_tangentStep below numbered.2 holds

theorem ends_forward (sized : work.size = tape.numSlots) (seeds : List (Seed α)) :
    Ends fails (fun after => after.1.size = tape.numSlots ∧
        after.2.sensitivities.length = seeds.length ∧ ∀ found ∈ after.2.sensitivities,
          List.Forall₂ (fun block entries => entries.length = block.slots.length) tape.outputs found)
      (tape.forward algebra work seeds) := by
  have scattered : ∀ seed ∈ seeds, Ends fails (fun array => array.size = tape.numSlots)
      (scatter algebra tape.numSlots tape.inputs seed) :=
    fun seed _ => ends_scatter algebra bounded.inputs seed
  refine (Ends.mapM_all scattered).bind fun directions directed => ?_
  refine (bounded.ends_tangents guarded sized directed).bind fun after swept => ?_
  refine (ends_readBlocks bounded.outputs swept.1).bind fun outputs _ => ?_
  refine (ends_readDirections bounded.outputs swept.2.2).bind fun sensitivities shaped => ?_
  exact ⟨swept.1, shaped.1.trans swept.2.1, shaped.2⟩

theorem ends_reverse (sized : work.size = tape.numSlots) (seeds : List (Seed α)) :
    Ends fails (fun after => after.1.size = tape.numSlots ∧
        after.2.sensitivities.length = seeds.length ∧ ∀ found ∈ after.2.sensitivities,
          List.Forall₂ (fun block entries => entries.length = block.slots.length) tape.inputs found)
      (tape.reverse algebra work seeds) := by
  refine (bounded.ends_recorded guarded sized).bind fun after recorded => ?_
  refine (ends_readBlocks bounded.outputs recorded.1).bind fun outputs _ => ?_
  have scattered : ∀ seed ∈ seeds, Ends fails (fun array => array.size = tape.numSlots)
      (scatterAdd algebra tape.numSlots tape.outputs seed) :=
    fun seed _ => guarded.ends_scatterAdd bounded.outputs seed
  refine (Ends.mapM_all scattered).bind fun directions directed => ?_
  have swept : Ends fails (fun arrays => arrays.length = seeds.length ∧
      ∀ array ∈ arrays, array.size = tape.numSlots) (after.2.adjoints algebra directions) :=
    Ends.foldlM (fun arrays holds entry member =>
      guarded.ends_adjointStep (recorded.2 entry member) entry.2 holds) directed
  refine swept.bind fun arrays sizes => ?_
  refine (ends_readDirections bounded.inputs sizes.2).bind fun sensitivities shaped => ?_
  exact ⟨recorded.1, shaped.1.trans sizes.1, shaped.2⟩

end Tape.Bounded

end Autodiff
