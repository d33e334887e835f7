import Autodiff.Proofs.Tape.Simulation
import Autodiff.Proofs.Tape.Slots

/-!
# Linked instruction lists

Two instruction lists are linked if they perform the same operations on corresponding slots. The
correspondence is not fixed: it changes along the lists, because an instruction may take over a slot
whose element is no longer needed. `Linked` keeps one relation per position, and `Link.Step` says all
that one pair of instructions may do to it.

From this every sweep over the first list equals the same sweep over the second, in any lawful
monad and without any law about the elements. The primal, the recording and the tangent sweep
follow the lists forwards and need that linked slots hold the same element. The adjoint sweep follows
them backwards. It needs in addition that slots without a partner hold zero, because a slot that
changes hands is accumulated into from both sides of the change.
-/

namespace Autodiff

/-- Which slots of one tape correspond to which slots of another. -/
abbrev Link := Nat → Nat → Prop

namespace Link

variable {α : Type}

def Matching (link : Link) : Prop :=
  ∀ ⦃left right left' right'⦄, link left right → link left' right' → (left = left' ↔ right = right')

/-- Linked slots of two arrays of given sizes hold the same element. -/
structure Agrees (link : Link) (firstSize secondSize : Nat) (first second : Array α) : Prop where
  firstSized : first.size = firstSize
  secondSized : second.size = secondSize
  same : ∀ ⦃left right⦄, link left right →
    ∃ element, first[left]? = some element ∧ second[right]? = some element

/-- Linked slots hold the same element, and slots without a partner hold zero. -/
structure Carries (link : Link) (zero : α) (firstSize secondSize : Nat)
    (first second : Array α) : Prop extends Agrees link firstSize secondSize first second where
  leftZero : ∀ left < firstSize, (∀ right, ¬link left right) → first[left]? = some zero
  rightZero : ∀ right < secondSize, (∀ left, ¬link left right) → second[right]? = some zero

/-- What a pair of instructions may do to a correspondence: the operands are linked before, the
results afterwards, and every other link was there before and is not overwritten. -/
structure Step (firstSize secondSize : Nat) (before : Link) (first second : Instruction)
    (after : Link) : Prop where
  op_eq : second.op = first.op
  literal_eq : second.literal = first.literal
  operands : List.Forall₂ before first.operands second.operands
  matching : before.Matching
  inside : ∀ ⦃left right⦄, before left right → left < firstSize ∧ right < secondSize
  firstInside : first.out < firstSize
  secondInside : second.out < secondSize
  kept : ∀ ⦃left right⦄, after left right →
    (left = first.out ∧ right = second.out) ∨
      (before left right ∧ left ≠ first.out ∧ right ≠ second.out)

end Link

/-- The instructions of two lists correspond one by one. -/
inductive Linked (firstSize secondSize : Nat) :
    Link → List Instruction → List Instruction → Link → Prop where
  | nil (link : Link) : Linked firstSize secondSize link [] [] link
  | cons {before between after : Link} {first second : Instruction}
      {firsts seconds : List Instruction}
      (step : Link.Step firstSize secondSize before first second between)
      (rest : Linked firstSize secondSize between firsts seconds after) :
      Linked firstSize secondSize before (first :: firsts) (second :: seconds) after

theorem Linked.instructionsBelow {firstSize secondSize : Nat} {before after : Link}
    {firsts seconds : List Instruction}
    (linked : Linked firstSize secondSize before firsts seconds after) :
    ∀ instruction ∈ firsts, instruction.Below firstSize := by
  induction linked with
  | nil => simp
  | cons step _ ih =>
      refine List.forall_mem_cons.mpr ⟨⟨step.firstInside, fun operand member => ?_⟩, ih⟩
      rcases List.mem_iff_getElem?.mp member with ⟨index, found⟩
      rcases forall₂_getElem? step.operands found with ⟨_, _, isLinked⟩
      exact (step.inside isLinked).1

namespace Link.Step

variable {m : Type → Type} [Monad m] [MonadExceptOf Error m] {α : Type}
  {firstSize secondSize : Nat} {before after : Link} {first second : Instruction}
  {firstWork secondWork : Array α}

variable (step : Step firstSize secondSize before first second after)
include step

theorem fst_of_unary {op : UnaryOp} (isUnary : first.op = .unary op) : before first.fst second.fst := by
  have operands := step.operands
  simpa [Instruction.operands, step.op_eq, isUnary] using operands

theorem operands_of_binary {op : BinaryOp} (isBinary : first.op = .binary op) :
    before first.fst second.fst ∧ before first.snd second.snd := by
  have operands := step.operands
  simpa [Instruction.operands, step.op_eq, isBinary] using operands

omit [MonadExceptOf Error m] in
theorem stepPartials_eq (algebra : Algebra m α) (executed : Autodiff.Step α) :
    first.stepPartials algebra executed = second.stepPartials algebra executed := by
  simp only [Instruction.stepPartials, step.op_eq]

variable (agrees : before.Agrees firstSize secondSize firstWork secondWork)
include agrees

/-- Writing the results of a pair of instructions establishes the correspondence after it. -/
theorem agrees_write (element : α) :
    after.Agrees firstSize secondSize (firstWork.setIfInBounds first.out element)
      (secondWork.setIfInBounds second.out element) := by
  have firstInside : first.out < firstWork.size := agrees.firstSized ▸ step.firstInside
  have secondInside : second.out < secondWork.size := agrees.secondSized ▸ step.secondInside
  refine ⟨by simpa using agrees.firstSized, by simpa using agrees.secondSized, ?_⟩
  intro left right linked
  rcases step.kept linked with ⟨rfl, rfl⟩ | ⟨old, leftKept, rightKept⟩
  · exact ⟨element, Array.getElem?_setIfInBounds_self_of_lt firstInside,
      Array.getElem?_setIfInBounds_self_of_lt secondInside⟩
  · rw [Array.getElem?_setIfInBounds_ne leftKept.symm,
      Array.getElem?_setIfInBounds_ne rightKept.symm]
    exact agrees.same old

variable [LawfulMonad m]

theorem simulates_write (element : α) :
    Simulates (after.Agrees firstSize secondSize)
      (writeSlot firstWork first.out element : m (Array α))
      (writeSlot secondWork second.out element) := by
  rw [writeSlot_eq_pure element (agrees.firstSized ▸ step.firstInside),
    writeSlot_eq_pure element (agrees.secondSized ▸ step.secondInside)]
  exact .pure (step.agrees_write agrees element)

variable (algebra : Algebra m α)

theorem load_eq :
    first.load algebra firstWork = second.load algebra secondWork := by
  cases operation : first.op with
  | const => simp [Instruction.load, step.op_eq, operation]
  | unary op =>
      rcases agrees.same (step.fst_of_unary operation) with ⟨element, inFirst, inSecond⟩
      simp [Instruction.load, step.op_eq, operation, readSlot_eq_pure inFirst,
        readSlot_eq_pure inSecond]
  | binary op =>
      rcases step.operands_of_binary operation with ⟨linkedFst, linkedSnd⟩
      rcases agrees.same linkedFst with ⟨left, leftInFirst, leftInSecond⟩
      rcases agrees.same linkedSnd with ⟨right, rightInFirst, rightInSecond⟩
      simp [Instruction.load, step.op_eq, operation, readSlot_eq_pure leftInFirst,
        readSlot_eq_pure leftInSecond, readSlot_eq_pure rightInFirst,
        readSlot_eq_pure rightInSecond]

theorem step_eq (index : Nat) :
    first.step algebra index firstWork = second.step algebra index secondWork := by
  simp only [Instruction.step, step.load_eq agrees algebra, step.op_eq, step.literal_eq]

theorem tangent_eq (weights : α × α) :
    first.tangent algebra weights firstWork = second.tangent algebra weights secondWork := by
  cases operation : first.op with
  | const => simp [Instruction.tangent, step.op_eq, operation]
  | unary op =>
      rcases agrees.same (step.fst_of_unary operation) with ⟨element, inFirst, inSecond⟩
      simp [Instruction.tangent, step.op_eq, operation, readSlot_eq_pure inFirst,
        readSlot_eq_pure inSecond]
  | binary op =>
      rcases step.operands_of_binary operation with ⟨linkedFst, linkedSnd⟩
      rcases agrees.same linkedFst with ⟨left, leftInFirst, leftInSecond⟩
      rcases agrees.same linkedSnd with ⟨right, rightInFirst, rightInSecond⟩
      simp [Instruction.tangent, step.op_eq, operation, readSlot_eq_pure leftInFirst,
        readSlot_eq_pure leftInSecond, readSlot_eq_pure rightInFirst,
        readSlot_eq_pure rightInSecond]

theorem simulates_pushForward (weights : α × α) :
    Simulates (after.Agrees firstSize secondSize)
      (pushForward algebra first weights firstWork)
      (pushForward algebra second weights secondWork) := by
  simp only [pushForward]
  rw [step.tangent_eq agrees algebra weights]
  refine .bind (.same _) fun tangent _ equal => ?_
  subst equal
  exact step.simulates_write agrees tangent

end Link.Step

/-! ## Forward sweeps -/

namespace Linked

variable {m : Type → Type} [Monad m] [LawfulMonad m] [MonadExceptOf Error m] {α : Type}
  {firstSize secondSize : Nat} {before after : Link} {firsts seconds : List Instruction}
  {firstWork secondWork : Array α}

variable (linked : Linked firstSize secondSize before firsts seconds after) (algebra : Algebra m α)
  (agrees : before.Agrees firstSize secondSize firstWork secondWork)
include linked agrees

theorem simulates_primal (index : Nat) :
    Simulates (after.Agrees firstSize secondSize)
      ((firsts.zipIdx index).foldlM (primalStep algebra) firstWork)
      ((seconds.zipIdx index).foldlM (primalStep algebra) secondWork) := by
  induction linked generalizing firstWork secondWork index with
  | nil => exact .pure agrees
  | cons step _ ih =>
      simp only [List.zipIdx_cons, List.foldlM_cons, primalStep]
      refine .bind ?_ fun firstNext secondNext stored => ih stored (index + 1)
      rw [step.step_eq agrees algebra index]
      refine .bind (.same _) fun executed _ equal => ?_
      subst equal
      exact step.simulates_write agrees executed.result

theorem simulates_recorded (firstRecord secondRecord : Record α) (index : Nat) :
    Simulates
      (fun first second => after.Agrees firstSize secondSize first.1 second.1 ∧
        ∃ weights : List (α × α), weights.length = firsts.length ∧
          first.2 = (firsts.zip weights).reverse ++ firstRecord ∧
            second.2 = (seconds.zip weights).reverse ++ secondRecord)
      ((firsts.zipIdx index).foldlM (recordStep algebra) (firstWork, firstRecord))
      ((seconds.zipIdx index).foldlM (recordStep algebra) (secondWork, secondRecord)) := by
  induction linked generalizing firstWork secondWork firstRecord secondRecord index with
  | nil => exact .pure ⟨agrees, [], rfl, rfl, rfl⟩
  | @cons _ _ _ first second _ _ step _ ih =>
      simp only [List.zipIdx_cons, List.foldlM_cons, recordStep, bind_assoc, pure_bind]
      rw [step.step_eq agrees algebra index]
      refine .bind (.same _) fun executed _ equal => ?_
      subst equal
      rw [step.stepPartials_eq algebra executed]
      refine .bind (.same _) fun weights _ equal => ?_
      subst equal
      refine .bind (step.simulates_write agrees executed.result) fun _ _ stored => ?_
      refine (ih stored ((first, weights) :: firstRecord) ((second, weights) :: secondRecord)
        (index + 1)).mono ?_
      rintro ⟨_, _⟩ ⟨_, _⟩ ⟨carried, later, length, rfl, rfl⟩
      exact ⟨carried, weights :: later, by simp [length], by simp, by simp⟩

theorem simulates_tangents {firstDirections secondDirections : List (Array α)}
    (directions : List.Forall₂ (before.Agrees firstSize secondSize)
      firstDirections secondDirections) (index : Nat) :
    Simulates
      (fun first second => after.Agrees firstSize secondSize first.1 second.1 ∧
        List.Forall₂ (after.Agrees firstSize secondSize) first.2 second.2)
      ((firsts.zipIdx index).foldlM (tangentStep algebra) (firstWork, firstDirections))
      ((seconds.zipIdx index).foldlM (tangentStep algebra) (secondWork, secondDirections)) := by
  induction linked generalizing firstWork secondWork firstDirections secondDirections index with
  | nil => exact .pure ⟨agrees, directions⟩
  | cons step _ ih =>
      simp only [List.zipIdx_cons, List.foldlM_cons, tangentStep, bind_assoc, pure_bind]
      rw [step.step_eq agrees algebra index]
      refine .bind (.same _) fun executed _ equal => ?_
      subst equal
      rw [step.stepPartials_eq algebra executed]
      refine .bind (.same _) fun weights _ equal => ?_
      subst equal
      refine .bind (.mapM directions fun _ _ linked =>
        step.simulates_pushForward linked algebra weights) fun _ _ moved => ?_
      exact .bind (step.simulates_write agrees executed.result) fun _ _ stored =>
        ih stored moved (index + 1)

end Linked

/-! ## The adjoint sweep -/

namespace Link

variable {m : Type → Type} [Monad m] [LawfulMonad m] [MonadExceptOf Error m] {α : Type}
  {firstSize secondSize : Nat} {link before after : Link} {zero : α}
  {firstAdjoints secondAdjoints : Array α} {first second : Instruction}

/-- Storing one element in two linked slots keeps a correspondence in which no slot has two
partners. -/
theorem Carries.write
    (carries : link.Carries zero firstSize secondSize firstAdjoints secondAdjoints)
    (matching : link.Matching) {left right : Nat} (linked : link left right) (element : α) :
    link.Carries zero firstSize secondSize (firstAdjoints.setIfInBounds left element)
      (secondAdjoints.setIfInBounds right element) := by
  rcases carries.same linked with ⟨old, leftFound, rightFound⟩
  have leftInside := (Array.getElem?_eq_some_iff.mp leftFound).1
  have rightInside := (Array.getElem?_eq_some_iff.mp rightFound).1
  refine ⟨⟨by simpa using carries.firstSized, by simpa using carries.secondSized, ?_⟩, ?_, ?_⟩
  · intro otherLeft otherRight otherLinked
    have samePair : left = otherLeft ↔ right = otherRight := matching linked otherLinked
    by_cases same : left = otherLeft
    · subst same
      cases samePair.mp rfl
      exact ⟨element, Array.getElem?_setIfInBounds_self_of_lt leftInside,
        Array.getElem?_setIfInBounds_self_of_lt rightInside⟩
    · rw [Array.getElem?_setIfInBounds_ne same,
        Array.getElem?_setIfInBounds_ne (fun equal => same (samePair.mpr equal))]
      exact carries.same otherLinked
  · intro otherLeft inside alone
    have different : left ≠ otherLeft := fun same => alone right (same ▸ linked)
    rw [Array.getElem?_setIfInBounds_ne different]
    exact carries.leftZero otherLeft inside alone
  · intro otherRight inside alone
    have different : right ≠ otherRight := fun same => alone left (same ▸ linked)
    rw [Array.getElem?_setIfInBounds_ne different]
    exact carries.rightZero otherRight inside alone

theorem Carries.simulates_accumulate {algebra : Algebra m α}
    (carries : link.Carries zero firstSize secondSize firstAdjoints secondAdjoints)
    (matching : link.Matching) {left right : Nat} (linked : link left right) (share : α) :
    Simulates (link.Carries zero firstSize secondSize)
      (Instruction.accumulate algebra firstAdjoints left share)
      (Instruction.accumulate algebra secondAdjoints right share) := by
  rcases carries.same linked with ⟨old, leftFound, rightFound⟩
  simp only [Instruction.accumulate, readSlot_eq_pure leftFound, readSlot_eq_pure rightFound,
    pure_bind]
  refine .bind (.same _) fun sum _ equal => ?_
  subst equal
  rw [writeSlot_eq_pure sum (Array.getElem?_eq_some_iff.mp leftFound).1,
    writeSlot_eq_pure sum (Array.getElem?_eq_some_iff.mp rightFound).1]
  exact .pure (carries.write matching linked sum)

/-- The results of a pair of instructions have the same adjoint: they are linked, or both have no
partner and their adjoints are zero. -/
theorem Step.adjoint_eq (step : Step firstSize secondSize before first second after)
    (carries : after.Carries zero firstSize secondSize firstAdjoints secondAdjoints) :
    ∃ adjoint, firstAdjoints[first.out]? = some adjoint ∧
      secondAdjoints[second.out]? = some adjoint := by
  by_cases linked : after first.out second.out
  · exact carries.same linked
  · refine ⟨zero, ?_, ?_⟩
    · apply carries.leftZero _ step.firstInside
      intro right partner
      rcases step.kept partner with ⟨_, rfl⟩ | ⟨_, notOut, _⟩
      · exact linked partner
      · exact notOut rfl
    · apply carries.rightZero _ step.secondInside
      intro left partner
      rcases step.kept partner with ⟨rfl, _⟩ | ⟨_, _, notOut⟩
      · exact linked partner
      · exact notOut rfl

theorem getElem?_reset {array : Array α} {size out slot : Nat} (sized : array.size = size)
    (inside : slot < size) (held : slot ≠ out → array[slot]? = some zero) :
    (array.setIfInBounds out zero)[slot]? = some zero := by
  by_cases isOut : slot = out
  · subst isOut
    exact Array.getElem?_setIfInBounds_self_of_lt (sized ▸ inside)
  · rw [Array.getElem?_setIfInBounds_ne (Ne.symm isOut)]
    exact held isOut

/-- Resetting the results turns the correspondence after a pair of instructions into the one before
it: a link that only exists before joins two slots that hold zero. -/
theorem Step.carries_reset (step : Step firstSize secondSize before first second after)
    (carries : after.Carries zero firstSize secondSize firstAdjoints secondAdjoints) :
    before.Carries zero firstSize secondSize (firstAdjoints.setIfInBounds first.out zero)
      (secondAdjoints.setIfInBounds second.out zero) := by
  have firstInside : first.out < firstAdjoints.size := carries.firstSized ▸ step.firstInside
  have secondInside : second.out < secondAdjoints.size := carries.secondSized ▸ step.secondInside
  have leftReset : ∀ left < firstSize,
      (left ≠ first.out → ∀ right, ¬after left right) →
        (firstAdjoints.setIfInBounds first.out zero)[left]? = some zero :=
    fun left inside alone => getElem?_reset carries.firstSized inside fun notOut =>
      carries.leftZero left inside (alone notOut)
  have rightReset : ∀ right < secondSize,
      (right ≠ second.out → ∀ left, ¬after left right) →
        (secondAdjoints.setIfInBounds second.out zero)[right]? = some zero :=
    fun right inside alone => getElem?_reset carries.secondSized inside fun notOut =>
      carries.rightZero right inside (alone notOut)
  refine ⟨⟨by simpa using carries.firstSized, by simpa using carries.secondSized, ?_⟩, ?_, ?_⟩
  · intro left right linked
    rcases step.inside linked with ⟨leftInside, rightInside⟩
    by_cases linkedAfter : after left right
    · rcases step.kept linkedAfter with ⟨rfl, rfl⟩ | ⟨_, leftKept, rightKept⟩
      · exact ⟨zero, Array.getElem?_setIfInBounds_self_of_lt firstInside,
          Array.getElem?_setIfInBounds_self_of_lt secondInside⟩
      · rw [Array.getElem?_setIfInBounds_ne leftKept.symm,
          Array.getElem?_setIfInBounds_ne rightKept.symm]
        exact carries.same linkedAfter
    · -- The link ends here, so neither slot has a partner afterwards except as a result.
      refine ⟨zero, leftReset left leftInside ?_, rightReset right rightInside ?_⟩
      · intro notOut right' partner
        rcases step.kept partner with ⟨isOut, _⟩ | ⟨old, _, _⟩
        · exact notOut isOut
        · exact linkedAfter ((step.matching linked old).mp rfl ▸ partner)
      · intro notOut left' partner
        rcases step.kept partner with ⟨_, isOut⟩ | ⟨old, _, _⟩
        · exact notOut isOut
        · exact linkedAfter ((step.matching linked old).mpr rfl ▸ partner)
  · intro left inside alone
    apply leftReset left inside
    intro notOut right partner
    rcases step.kept partner with ⟨isOut, _⟩ | ⟨old, _, _⟩
    · exact notOut isOut
    · exact alone right old
  · intro right inside alone
    apply rightReset right inside
    intro notOut left partner
    rcases step.kept partner with ⟨_, isOut⟩ | ⟨old, _, _⟩
    · exact notOut isOut
    · exact alone left old

theorem Step.simulates_pullBack (step : Step firstSize secondSize before first second after)
    (algebra : Algebra m α)
    (carries : after.Carries algebra.zero firstSize secondSize firstAdjoints secondAdjoints)
    (weights : α × α) :
    Simulates (before.Carries algebra.zero firstSize secondSize)
      (first.pullBack algebra weights firstAdjoints)
      (second.pullBack algebra weights secondAdjoints) := by
  rcases step.adjoint_eq carries with ⟨adjoint, firstFound, secondFound⟩
  have reset := step.carries_reset carries
  simp only [Instruction.pullBack, readSlot_eq_pure firstFound, readSlot_eq_pure secondFound,
    pure_bind, writeSlot_eq_pure algebra.zero (carries.firstSized ▸ step.firstInside),
    writeSlot_eq_pure algebra.zero (carries.secondSized ▸ step.secondInside), step.op_eq]
  cases operation : first.op with
  | const => exact .pure reset
  | unary op =>
      refine .bind (.same _) fun skipped _ equal => ?_
      subst equal
      cases skipped with
      | true => exact .pure reset
      | false =>
          refine .bind (.same _) fun share _ equal => ?_
          subst equal
          exact reset.simulates_accumulate step.matching (step.fst_of_unary operation) share
  | binary op =>
      rcases step.operands_of_binary operation with ⟨linkedFst, linkedSnd⟩
      refine .bind (.same _) fun skipped _ equal => ?_
      subst equal
      cases skipped with
      | true => exact .pure reset
      | false =>
          refine .bind (.same _) fun share _ equal => ?_
          subst equal
          refine .bind (reset.simulates_accumulate step.matching linkedFst share)
            fun _ _ moved => ?_
          refine .bind (.same _) fun share _ equal => ?_
          subst equal
          exact moved.simulates_accumulate step.matching linkedSnd share

end Link

namespace Linked

variable {m : Type → Type} [Monad m] [LawfulMonad m] [MonadExceptOf Error m] {α : Type}
  {firstSize secondSize : Nat} {before after : Link} {firsts seconds : List Instruction}

variable (linked : Linked firstSize secondSize before firsts seconds after) (algebra : Algebra m α)
  {weights : List (α × α)} (length : weights.length = firsts.length)
include linked length

theorem simulates_adjoint {firstAdjoints secondAdjoints : Array α}
    (carries : after.Carries algebra.zero firstSize secondSize firstAdjoints secondAdjoints) :
    Simulates (before.Carries algebra.zero firstSize secondSize)
      (Record.adjoint algebra (firsts.zip weights).reverse firstAdjoints)
      (Record.adjoint algebra (seconds.zip weights).reverse secondAdjoints) := by
  induction linked generalizing weights with
  | nil => exact .pure carries
  | cons step _ ih =>
      rcases weights with _ | ⟨weight, weights⟩
      · simp at length
      · simp only [Record.adjoint, List.zip_cons_cons, List.reverse_cons, List.foldlM_append,
          List.foldlM_cons, List.foldlM_nil, bind_pure]
        exact .bind (ih (by simpa using length) carries) fun _ _ moved =>
          step.simulates_pullBack algebra moved weight

theorem simulates_adjoints {firstDirections secondDirections : List (Array α)}
    (directions : List.Forall₂ (after.Carries algebra.zero firstSize secondSize)
      firstDirections secondDirections) :
    Simulates (List.Forall₂ (before.Carries algebra.zero firstSize secondSize))
      (Record.adjoints algebra (firsts.zip weights).reverse firstDirections)
      (Record.adjoints algebra (seconds.zip weights).reverse secondDirections) := by
  induction linked generalizing weights with
  | nil => exact .pure directions
  | cons step _ ih =>
      rcases weights with _ | ⟨weight, weights⟩
      · simp at length
      · simp only [Record.adjoints, List.zip_cons_cons, List.reverse_cons, List.foldlM_append,
          List.foldlM_cons, List.foldlM_nil, bind_pure]
        refine .bind (ih (by simpa using length) directions) fun _ _ moved => ?_
        exact .mapM moved fun _ _ carried => step.simulates_pullBack algebra carried weight

end Linked

end Autodiff
