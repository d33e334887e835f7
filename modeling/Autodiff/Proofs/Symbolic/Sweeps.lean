import Autodiff.Proofs.Symbolic.Simplification
import Autodiff.Proofs.Tape.LinearSweeps

/-!
# Sweeps over expressions

A sweep over expressions does to handles what a sweep over numbers does to the elements that they denote.
The working array of handles stands for a function from slots to elements (`Fills`). One lemma per step says
what the step does to this function, and the run lemmas follow by induction over the instructions: executing
them (`completes_primal`), recording their partials (`completes_recorded`), pushing tangents forward
(`completes_tangents`) and pulling adjoints back (`completes_adjoints`).
-/

namespace Autodiff

namespace Reading

/-! ## Arrays of handles -/

section Arrays

variable {K : Type} [Zero K]

/-- The handles in an array denote given elements. -/
def Fills (reading : Reading K) (size : Nat) (world : World) (array : Array Handle)
    (values : Nat → K) : Prop :=
  ∃ handles, array = slotArray size handles ∧
    ∀ slot < size, reading.Denotes world (handles slot) (values slot)

variable {reading : Reading K} {world : World} {size slot : Nat} {array : Array Handle}
  {values : Nat → K}

theorem Fills.stays (array : Array Handle) (values : Nat → K) :
    World.Stays fun world => reading.Fills size world array values := by
  rintro before after grows ⟨handles, isArray, denotes⟩
  exact ⟨handles, isArray, fun slot inside => (denotes slot inside).grow grows⟩

theorem fills_replicate (lawful : reading.Lawful) (size : Nat) (world : World) :
    reading.Fills size world (Array.replicate size .zero) fun _ => 0 :=
  ⟨fun _ => .zero, replicate_eq_slotArray size _, fun _ _ => denotes_zero lawful world⟩

variable (fills : reading.Fills size world array values)
include fills

theorem Fills.readSlot (inside : slot < size) :
    reading.Builds world (readSlot array slot) (readSlot array slot) (values slot) := by
  rcases fills with ⟨handles, rfl, denotes⟩
  rw [readSlot_slotArray inside, readSlot_slotArray inside]
  exact .pure (denotes slot inside)

theorem Fills.writeSlot (inside : slot < size) {handle : Handle} {element : K} (denotes : reading.Denotes world handle element) :
    Completes world (writeSlot array slot handle) (writeSlot array slot handle)
      fun world array => reading.Fills size world array (Function.update values slot element) := by
  rcases fills with ⟨handles, rfl, allDenote⟩
  rw [writeSlot_slotArray inside, writeSlot_slotArray inside]
  refine .pure ⟨_, rfl, fun other otherInside => ?_⟩
  by_cases same : other = slot
  · subst same
    simpa using denotes
  · simpa [same] using allDenote other otherInside

theorem Fills.readBlocks {blocks : List Block} (below : SlotsBelow size blocks) :
    Completes world (readBlocks blocks array) (readBlocks blocks array) fun world handles =>
      List.Forall₂ (List.Forall₂ (reading.Denotes world)) handles
        (blocks.map fun block => block.slots.map values) := by
  rcases fills with ⟨handles, rfl, denotes⟩
  rw [readBlocks_slotArray below, readBlocks_slotArray below]
  refine .pure ?_
  simp only [List.forall₂_map_left_iff, List.forall₂_map_right_iff, List.forall₂_same]
  exact fun block blockMem slot slotMem => denotes slot (below block blockMem slot slotMem)

end Arrays

/-! ## Executing -/

variable {instructions : List Instruction}

section Executing

variable {K : Type} [Zero K] {reading : Reading K} {world : World} {size : Nat}
  {array : Array Handle} {values : Nat → K} {instruction : Instruction}

/-- The operands and the result of an executed instruction denote given elements. -/
structure DenotesStep (reading : Reading K) (world : World) (step : Step Handle)
    (executed : Step K) : Prop where
  fst : reading.Denotes world step.fst executed.fst
  snd : reading.Denotes world step.snd executed.snd
  result : reading.Denotes world step.result executed.result

variable (fills : reading.Fills size world array values) (lawful : reading.Lawful)
include fills lawful

theorem Fills.step (below : instruction.Below size)
    (allowed : reading.vocabulary.AllowsOp instruction.op) (index : Nat) :
    Completes world (instruction.step expressions index array)
      (instruction.step expressions index array) fun world step =>
        reading.DenotesStep world step (instruction.executed reading.meaning 0 values) := by
  rcases instruction with ⟨_ | op | op, out, fst, snd, literal⟩
  · simp only [Instruction.step, Instruction.load, pure_bind]
    apply (completes_constant reading literal).bind
    intro later handle grows denotes
    exact .pure ⟨denotes_zero lawful later, denotes_zero lawful later, denotes⟩
  · have inside := below.unary rfl
    simp only [Instruction.step, Instruction.load, bind_assoc, pure_bind]
    apply (fills.readSlot inside).bind
    intro later first grows firstDenotes
    apply (completes_unary lawful allowed firstDenotes).bind
    intro last result growsOn denotes
    exact .pure ⟨firstDenotes.grow growsOn, denotes_zero lawful last, denotes⟩
  · rcases below.binary rfl with ⟨fstInside, sndInside⟩
    simp only [Instruction.step, Instruction.load, bind_assoc, pure_bind]
    apply (fills.readSlot fstInside).bind
    intro middle first grows firstDenotes
    apply (Fills.readSlot (Fills.stays array values grows fills) sndInside).bind
    intro later second growsOn secondDenotes
    have firstLater := firstDenotes.grow growsOn
    apply (completes_binary lawful allowed firstLater secondDenotes).bind
    intro last result growsLast denotes
    exact .pure ⟨firstLater.grow growsLast, secondDenotes.grow growsLast, denotes⟩

theorem Fills.primalStep (below : instruction.Below size)
    (allowed : reading.vocabulary.AllowsOp instruction.op) (index : Nat) :
    Completes world (primalStep expressions array (instruction, index))
      (primalStep expressions array (instruction, index)) fun world array =>
        reading.Fills size world array (instruction.execute reading.meaning values) := by
  apply (fills.step lawful below allowed index).bind
  intro later step grows denotes
  rw [Instruction.execute, ← Instruction.result_executed reading.meaning instruction 0]
  exact Fills.writeSlot (Fills.stays array values grows fills) below.out denotes.result

theorem Fills.primal (below : ∀ instruction ∈ instructions, instruction.Below size)
    (allowed : ∀ instruction ∈ instructions, reading.vocabulary.AllowsOp instruction.op) (start : Nat) :
    Completes world ((instructions.zipIdx start).foldlM (Autodiff.primalStep expressions) array)
      ((instructions.zipIdx start).foldlM (Autodiff.primalStep expressions) array)
      fun world array =>
        reading.Fills size world array (executeAll reading.meaning instructions values) := by
  induction instructions generalizing world array values start with
  | nil => exact .pure fills
  | cons instruction instructions ih =>
      rw [List.forall_mem_cons] at below allowed
      rw [List.zipIdx_cons, List.foldlM_cons, List.foldlM_cons]
      apply (fills.primalStep lawful below.1 allowed.1 start).bind
      intro later next grows nextFills
      exact ih nextFills below.2 allowed.2 (start + 1)

end Executing

/-! ## Recording -/

variable {later : World}

section Recording

variable {K : Type} [Zero K] {reading : Reading K} {rules : DerivativeRules K} {world : World}
  {size : Nat} {array : Array Handle} {values : Nat → K} {instruction : Instruction}

/-- The derivative expressions of the operations in the vocabulary denote what the rules say. -/
structure Derives (reading : Reading K) (rules : DerivativeRules K) : Prop where
  unary : ∀ (world : World) (op : UnaryOp) (operand result : Handle) (element : K),
    reading.vocabulary.unary op → reading.Denotes world operand element →
    reading.Denotes world result (reading.meaning.unary op element) →
    Completes world (Symbolic.derivative op operand result) (Symbolic.derivative op operand result)
      fun world weight => reading.Denotes world weight
        (rules.unary op element (reading.meaning.unary op element))
  binary : ∀ (world : World) (op : BinaryOp) (lhs rhs result : Handle) (left right : K),
    reading.vocabulary.binary op → reading.Denotes world lhs left →
    reading.Denotes world rhs right →
    reading.Denotes world result (reading.meaning.binary op left right) →
    Completes world (Symbolic.derivatives op lhs rhs result)
      (Symbolic.derivatives op lhs rhs result) fun world weights =>
        reading.Denotes world weights.1
          (rules.binary op left right (reading.meaning.binary op left right)).1 ∧
        reading.Denotes world weights.2
          (rules.binary op left right (reading.meaning.binary op left right)).2

def DenotesPair (reading : Reading K) (world : World) (handles : Handle × Handle)
    (elements : K × K) : Prop :=
  reading.Denotes world handles.1 elements.1 ∧ reading.Denotes world handles.2 elements.2

theorem DenotesPair.grow {handles : Handle × Handle} {elements : K × K}
    (denotes : reading.DenotesPair world handles elements) (grows : world ≤ later) :
    reading.DenotesPair later handles elements :=
  ⟨denotes.1.grow grows, denotes.2.grow grows⟩

/-- The recorded instructions are given ones, and their partials denote given elements. -/
def DenotesRecord (reading : Reading K) (world : World) (record : Record Handle)
    (weights : Record K) : Prop :=
  List.Forall₂ (fun recorded weighted => recorded.1 = weighted.1 ∧
    reading.DenotesPair world recorded.2 weighted.2) record weights

theorem DenotesRecord.grow {record : Record Handle} {weights : Record K}
    (denotes : reading.DenotesRecord world record weights) (grows : world ≤ later) :
    reading.DenotesRecord later record weights :=
  List.Forall₂.imp (fun _ _ both => ⟨both.1, both.2.grow grows⟩) denotes

theorem Derives.stepPartials (derives : reading.Derives rules) (lawful : reading.Lawful)
    (allowed : reading.vocabulary.AllowsOp instruction.op) {step : Step Handle}
    (denotes : reading.DenotesStep world step (instruction.executed reading.meaning 0 values)) :
    Completes world (instruction.stepPartials expressions step)
      (instruction.stepPartials expressions step) fun world weights =>
        reading.DenotesPair world weights
          (instruction.weighted rules reading.meaning values) := by
  rcases instruction with ⟨_ | op | op, out, fst, snd, literal⟩
  · exact .pure ⟨denotes_zero lawful world, denotes_zero lawful world⟩
  · apply (derives.unary world op _ _ _ allowed denotes.fst denotes.result).bind
    intro later weight grows weightDenotes
    exact .pure ⟨weightDenotes, denotes_zero lawful later⟩
  · exact derives.binary world op _ _ _ _ _ allowed denotes.fst denotes.snd denotes.result

theorem Fills.recordStep (fills : reading.Fills size world array values)
    (derives : reading.Derives rules) (lawful : reading.Lawful) (below : instruction.Below size)
    (allowed : reading.vocabulary.AllowsOp instruction.op) (index : Nat)
    {record : Record Handle} {weights : Record K}
    (recorded : reading.DenotesRecord world record weights) :
    Completes world (recordStep expressions (array, record) (instruction, index))
      (recordStep expressions (array, record) (instruction, index)) fun world state =>
        reading.Fills size world state.1 (instruction.execute reading.meaning values) ∧
        reading.DenotesRecord world state.2
          ((instruction, instruction.weighted rules reading.meaning values) :: weights) := by
  apply (fills.step lawful below allowed index).bind
  intro middle step grows denotes
  apply (derives.stepPartials lawful allowed denotes).bind
  intro later stepWeights growsOn weightsDenote
  have growsLater := grows.trans growsOn
  have laterFills : reading.Fills size later array values := Fills.stays array values growsLater fills
  apply (laterFills.writeSlot below.out (denotes.result.grow growsOn)).bind
  intro last next growsLast nextFills
  rw [Instruction.result_executed] at nextFills
  exact .pure ⟨nextFills, .cons ⟨rfl, weightsDenote.grow growsLast⟩
    (recorded.grow (growsLater.trans growsLast))⟩

theorem Fills.recorded (fills : reading.Fills size world array values) (derives : reading.Derives rules)
    (lawful : reading.Lawful) (below : ∀ instruction ∈ instructions, instruction.Below size)
    (allowed : ∀ instruction ∈ instructions, reading.vocabulary.AllowsOp instruction.op) (start : Nat)
    {record : Record Handle} {weights : Record K} (recorded : reading.DenotesRecord world record weights) :
    Completes world
      ((instructions.zipIdx start).foldlM (Autodiff.recordStep expressions) (array, record))
      ((instructions.zipIdx start).foldlM (Autodiff.recordStep expressions) (array, record))
      fun world state =>
        reading.Fills size world state.1 (executeAll reading.meaning instructions values) ∧
        reading.DenotesRecord world state.2
          (recordAll rules reading.meaning instructions values weights) := by
  induction instructions generalizing world array values start record weights with
  | nil => exact .pure ⟨fills, recorded⟩
  | cons instruction instructions ih =>
      rw [List.forall_mem_cons] at below allowed
      rw [List.zipIdx_cons, List.foldlM_cons, List.foldlM_cons]
      apply (fills.recordStep derives lawful below.1 allowed.1 start recorded).bind
      intro later next grows both
      exact ih both.1 below.2 allowed.2 (start + 1) both.2

end Recording

/-! ## Tangents -/

section Linear

variable {K : Type} [CommSemiring K] {reading : Reading K} {rules : DerivativeRules K}
  {world : World} {size slot : Nat} {array : Array Handle} {values : Nat → K}
  {instruction : Instruction}

/-- Sums and products mean those of a semiring. -/
structure Linear (reading : Reading K) : Prop extends reading.Lawful where
  allowsAdd : reading.vocabulary.binary .add
  allowsMul : reading.vocabulary.binary .mul
  add_eq : ∀ left right, reading.meaning.binary .add left right = left + right
  mul_eq : ∀ left right, reading.meaning.binary .mul left right = left * right

theorem Linear.completes_add (linear : reading.Linear) {lhs rhs : Handle} {left right : K}
    (leftDenotes : reading.Denotes world lhs left) (rightDenotes : reading.Denotes world rhs right) :
    reading.Builds world (Symbolic.binary .add lhs rhs) (Symbolic.binary .add lhs rhs) (left + right) := by
  simpa only [linear.add_eq] using
    completes_binary linear.toLawful linear.allowsAdd leftDenotes rightDenotes

theorem Linear.completes_mul (linear : reading.Linear) {lhs rhs : Handle} {left right : K}
    (leftDenotes : reading.Denotes world lhs left) (rightDenotes : reading.Denotes world rhs right) :
    reading.Builds world (Symbolic.binary .mul lhs rhs) (Symbolic.binary .mul lhs rhs) (left * right) := by
  simpa only [linear.mul_eq] using
    completes_binary linear.toLawful linear.allowsMul leftDenotes rightDenotes

theorem Linear.tangentShare (linear : reading.Linear) {weight tangent : Handle} {factor element : K}
    (weightDenotes : reading.Denotes world weight factor)
    (tangentDenotes : reading.Denotes world tangent element) :
    reading.Builds world (Instruction.tangentShare expressions weight tangent) (Instruction.tangentShare expressions weight tangent)
      (factor * element) := by
  apply (completes_isZero linear.toLawful tangentDenotes).bind
  intro later isZero grows zero
  cases isZero with
  | true =>
      refine .pure ((denotes_zero linear.toLawful later).congr fun exact => ?_)
      rw [zero rfl exact, mul_zero]
  | false => exact linear.completes_mul (weightDenotes.grow grows) (tangentDenotes.grow grows)

variable {factors : K × K}

theorem Linear.tangent (linear : reading.Linear) (below : instruction.Below size) {weights : Handle × Handle}
    {tangents : Array Handle} {elements : Nat → K} (weightsDenote : reading.DenotesPair world weights factors)
    (fills : reading.Fills size world tangents elements) :
    reading.Builds world (instruction.tangent expressions weights tangents) (instruction.tangent expressions weights tangents)
      ((instruction.shares factors).map fun share => share.2 * elements share.1).sum := by
  rcases instruction with ⟨_ | op | op, out, fst, snd, literal⟩
  · exact .pure (denotes_zero linear.toLawful world)
  · have inside := below.unary rfl
    simp only [Instruction.shares, List.map_cons, List.map_nil, List.sum_cons, List.sum_nil, add_zero]
    apply (fills.readSlot inside).bind
    intro later first grows denotes
    exact linear.tangentShare (weightsDenote.1.grow grows) denotes
  · rcases below.binary rfl with ⟨fstInside, sndInside⟩
    simp only [Instruction.shares, List.map_cons, List.map_nil, List.sum_cons, List.sum_nil, add_zero]
    apply (fills.readSlot fstInside).bind
    intro first firstTangent grows firstDenotes
    apply (linear.tangentShare (weightsDenote.1.grow grows) firstDenotes).bind
    intro second total growsOn totalDenotes
    have growsSecond := grows.trans growsOn
    apply (Fills.readSlot (Fills.stays tangents elements growsSecond fills) sndInside).bind
    intro third secondTangent growsThird secondDenotes
    have totalLater := totalDenotes.grow growsThird
    apply (completes_isZero linear.toLawful secondDenotes).bind
    intro fourth isZero growsFourth zero
    cases isZero with
    | true =>
        refine .pure ((totalLater.grow growsFourth).congr fun exact => ?_)
        rw [zero rfl exact, mul_zero, add_zero]
    | false =>
        have weightLater :=
          weightsDenote.2.grow ((growsSecond.trans growsThird).trans growsFourth)
        apply (linear.completes_mul weightLater (secondDenotes.grow growsFourth)).bind
        intro fifth share growsFifth shareDenotes
        exact linear.completes_add (totalLater.grow (growsFourth.trans growsFifth)) shareDenotes

theorem Linear.pushForward (linear : reading.Linear) (below : instruction.Below size) {weights : Handle × Handle}
    {tangents : Array Handle} {elements : Nat → K} (weightsDenote : reading.DenotesPair world weights factors)
    (fills : reading.Fills size world tangents elements) :
    Completes world (pushForward expressions instruction weights tangents)
      (pushForward expressions instruction weights tangents) fun world tangents =>
        reading.Fills size world tangents (instruction.pushed factors elements) := by
  apply (linear.tangent below weightsDenote fills).bind
  intro later tangent grows denotes
  exact Fills.writeSlot (Fills.stays tangents elements grows fills) below.out denotes

abbrev FillsAll (reading : Reading K) (size : Nat) (world : World) (arrays : List (Array Handle))
    (directions : List (Nat → K)) : Prop :=
  List.Forall₂ (reading.Fills size world) arrays directions

variable {directions : List (Nat → K)}

theorem FillsAll.grow {arrays : List (Array Handle)} (fills : reading.FillsAll size world arrays directions)
    (grows : world ≤ later) :
    reading.FillsAll size later arrays directions :=
  fills.imp fun array values => @Fills.stays _ _ _ _ array values _ _ grows

theorem Linear.tangentStep (linear : reading.Linear) (derives : reading.Derives rules)
    (below : instruction.Below size) (allowed : reading.vocabulary.AllowsOp instruction.op) (index : Nat)
    (fills : reading.Fills size world array values) {tangents : List (Array Handle)}
    (fillsAll : reading.FillsAll size world tangents directions) :
    Completes world (tangentStep expressions (array, tangents) (instruction, index))
      (tangentStep expressions (array, tangents) (instruction, index)) fun world state =>
        reading.Fills size world state.1 (instruction.execute reading.meaning values) ∧
        reading.FillsAll size world state.2 (directions.map
          (instruction.pushed (instruction.weighted rules reading.meaning values))) := by
  apply (fills.step linear.toLawful below allowed index).bind
  intro first step grows denotes
  apply (derives.stepPartials linear.toLawful allowed denotes).bind
  intro second weights growsOn weightsDenote
  have growsSecond := grows.trans growsOn
  have pushed : Completes second (tangents.mapM (Autodiff.pushForward expressions instruction weights))
      (tangents.mapM (Autodiff.pushForward expressions instruction weights)) fun world tangents =>
        List.Forall₂ (fun tangents direction => reading.Fills size world tangents
          (instruction.pushed (instruction.weighted rules reading.meaning values) direction))
          tangents directions := by
    apply Completes.mapM (fillsAll.grow growsSecond) (fun array values => Fills.stays array values)
    · exact fun array direction => Fills.stays array _
    · intro later array direction growsLater directionFills
      exact linear.pushForward below (weightsDenote.grow growsLater) directionFills
  apply pushed.bind
  intro third next growsThird nextFills
  have fillsLater : reading.Fills size third array values :=
    Fills.stays array values (growsSecond.trans growsThird) fills
  apply (fillsLater.writeSlot below.out (denotes.result.grow (growsOn.trans growsThird))).bind
  intro fourth work growsFourth workFills
  rw [Instruction.result_executed] at workFills
  refine .pure ⟨workFills, List.forall₂_map_right_iff.mpr (nextFills.imp ?_)⟩
  exact fun array direction => @Fills.stays _ _ _ _ array _ _ _ growsFourth

/-- The sweep with tangents executes the instructions and pushes every direction over their partials. -/
theorem Linear.tangents (linear : reading.Linear) (derives : reading.Derives rules)
    (below : ∀ instruction ∈ instructions, instruction.Below size)
    (allowed : ∀ instruction ∈ instructions, reading.vocabulary.AllowsOp instruction.op) (start : Nat)
    (fills : reading.Fills size world array values) {tangents : List (Array Handle)} {record : Record K}
    (fillsAll : reading.FillsAll size world tangents (directions.map record.pushed)) :
    Completes world
      ((instructions.zipIdx start).foldlM (Autodiff.tangentStep expressions) (array, tangents))
      ((instructions.zipIdx start).foldlM (Autodiff.tangentStep expressions) (array, tangents))
      fun world state =>
        reading.Fills size world state.1 (executeAll reading.meaning instructions values) ∧
        reading.FillsAll size world state.2 (directions.map
          (recordAll rules reading.meaning instructions values record).pushed) := by
  induction instructions generalizing world array values start tangents record with
  | nil => exact .pure ⟨fills, fillsAll⟩
  | cons instruction instructions ih =>
      rw [List.forall_mem_cons] at below allowed
      rw [List.zipIdx_cons, List.foldlM_cons, List.foldlM_cons]
      apply (linear.tangentStep derives below.1 allowed.1 start fills fillsAll).bind
      intro later next grows both
      rw [List.map_map] at both
      exact ih below.2 allowed.2 (start + 1) both.1 both.2

/-! ## Adjoints -/

theorem Fills.congr (fills : reading.Fills size world array values) {others : Nat → K}
    (same : reading.Exact world → values = others) : reading.Fills size world array others := by
  rcases fills with ⟨handles, isArray, denotes⟩
  exact ⟨handles, isArray, fun slot inside =>
    (denotes slot inside).congr fun exact => congrFun (same exact) slot⟩

theorem Linear.accumulate (linear : reading.Linear) (inside : slot < size)
    (fills : reading.Fills size world array values) {share : Handle} {element : K}
    (denotes : reading.Denotes world share element) :
    Completes world (Instruction.accumulate expressions array slot share)
      (Instruction.accumulate expressions array slot share) fun world array =>
        reading.Fills size world array (values + Pi.single slot element) := by
  have sum : values + Pi.single slot element =
      Function.update values slot (values slot + element) := by
    funext other
    by_cases same : other = slot
    · subst same
      simp
    · simp [same]
  rw [sum]
  apply (fills.readSlot inside).bind
  intro first old grows oldDenotes
  apply (linear.completes_add oldDenotes (denotes.grow grows)).bind
  intro second total growsOn totalDenotes
  exact Fills.writeSlot (Fills.stays array values (grows.trans growsOn) fills) inside totalDenotes

theorem Linear.addShare (linear : reading.Linear) (inside : slot < size)
    (fills : reading.Fills size world array values) {weight adjoint : Handle} {factor element : K}
    (weightDenotes : reading.Denotes world weight factor)
    (adjointDenotes : reading.Denotes world adjoint element) :
    Completes world (do
        let share ← expressions.mul weight adjoint
        Instruction.accumulate expressions array slot share)
      (do
        let share ← expressions.mul weight adjoint
        Instruction.accumulate expressions array slot share) fun world array =>
        reading.Fills size world array (values + Pi.single slot (factor * element)) := by
  apply (linear.completes_mul weightDenotes adjointDenotes).bind
  intro later share grows denotes
  exact linear.accumulate inside (Fills.stays array values grows fills) denotes

theorem Linear.pullBack (linear : reading.Linear) (below : instruction.Below size) {weights : Handle × Handle}
    {adjoints : Array Handle} {elements : Nat → K} (weightsDenote : reading.DenotesPair world weights factors)
    (fills : reading.Fills size world adjoints elements) :
    Completes world (instruction.pullBack expressions weights adjoints)
      (instruction.pullBack expressions weights adjoints) fun world adjoints =>
        reading.Fills size world adjoints (instruction.pulled factors elements) := by
  apply (fills.readSlot below.out).bind
  intro first adjoint grows denotes
  have firstFills : reading.Fills size first adjoints elements := Fills.stays _ _ grows fills
  apply (firstFills.writeSlot below.out (denotes_zero linear.toLawful first)).bind
  intro second reset growsOn resetFills
  have adjointDenotes := denotes.grow growsOn
  have weightsLater := weightsDenote.grow (grows.trans growsOn)
  rcases instruction with ⟨_ | op | op, out, fst, snd, literal⟩
  · refine .pure (resetFills.congr fun _ => ?_)
    simp [Instruction.pulled, Instruction.shares]
  · have inside := below.unary rfl
    apply (completes_isZero linear.toLawful adjointDenotes).bind
    intro third isZero growsThird zero
    have thirdFills := Fills.stays _ _ growsThird resetFills
    cases isZero with
    | true =>
        refine .pure (Fills.congr thirdFills fun exact => ?_)
        have outZero : elements out = 0 := zero rfl exact
        simp [Instruction.pulled, Instruction.shares, outZero]
    | false =>
        have added := linear.addShare inside thirdFills (weightsLater.1.grow growsThird)
          (adjointDenotes.grow growsThird)
        simpa [Instruction.pulled, Instruction.shares] using added
  · rcases below.binary rfl with ⟨fstInside, sndInside⟩
    apply (completes_isZero linear.toLawful adjointDenotes).bind
    intro third isZero growsThird zero
    have thirdFills := Fills.stays _ _ growsThird resetFills
    have weightsThird := weightsLater.grow growsThird
    have adjointThird := adjointDenotes.grow growsThird
    cases isZero with
    | true =>
        refine .pure (Fills.congr thirdFills fun exact => ?_)
        have outZero : elements out = 0 := zero rfl exact
        simp [Instruction.pulled, Instruction.shares, outZero]
    | false =>
        apply (linear.completes_mul weightsThird.1 adjointThird).bind
        intro fourth share growsFourth shareDenotes
        apply (linear.accumulate fstInside (Fills.stays _ _ growsFourth thirdFills) shareDenotes).bind
        intro fifth partly growsFifth partlyFills
        have growsSince := growsFourth.trans growsFifth
        have added := linear.addShare sndInside partlyFills (weightsThird.2.grow growsSince)
          (adjointThird.grow growsSince)
        simpa [Instruction.pulled, Instruction.shares, add_assoc] using added

theorem Linear.adjoints (linear : reading.Linear) {record : Record Handle} {weights : Record K}
    (below : weights.Below size) (recorded : reading.DenotesRecord world record weights)
    {adjoints : List (Array Handle)} (fillsAll : reading.FillsAll size world adjoints directions) :
    Completes world (record.adjoints expressions adjoints) (record.adjoints expressions adjoints)
      fun world adjoints =>
        reading.FillsAll size world adjoints (directions.map weights.pulled) := by
  induction record generalizing world weights adjoints directions with
  | nil =>
      cases recorded
      exact .pure (by simpa [Record.pulled] using fillsAll)
  | cons first record ih =>
      rcases List.forall₂_cons_left_iff.mp recorded with ⟨weighted, rest, ⟨same, denotes⟩, tail, rfl⟩
      rw [Record.Below, List.forall_mem_cons] at below
      rw [Record.adjoints, List.foldlM_cons, Record.adjoints, List.foldlM_cons]
      have stepped : Completes world (adjointStep expressions adjoints first)
          (adjointStep expressions adjoints first) fun world adjoints =>
            List.Forall₂ (fun adjoints direction =>
              reading.Fills size world adjoints (weighted.1.pulled weighted.2 direction))
              adjoints directions := by
        rw [adjointStep, adjointStep, same]
        apply Completes.mapM fillsAll (fun array values => Fills.stays array values)
        · exact fun array direction => Fills.stays array _
        · intro later array direction grows directionFills
          exact linear.pullBack below.1 (denotes.grow grows) directionFills
      apply stepped.bind
      intro later next grows nextFills
      have nextAll := List.forall₂_map_right_iff.mpr nextFills
      have finished := ih below.2 (DenotesRecord.grow tail grows) nextAll
      rw [List.map_map] at finished
      exact finished

end Linear

end Reading

end Autodiff
