import Autodiff.Dependency.Jacobian
import Autodiff.Proofs.Tape.Linked

/-!
# Tapes that differ in their slots

Two tapes with the same inputs and linked instructions give the same results: the same outputs, the
same tangents, the same adjoints and the same dependency masks. The slots of the inputs are the same
on both sides. An input slot that no instruction reads may be linked to nothing; its adjoint is then
zero on both sides.
-/

namespace Autodiff

variable {lefts rights : List Nat} {input : Block}

def Link.Blocks (link : Link) (first second : List Block) : Prop :=
  List.Forall₂ (fun left right => List.Forall₂ link left.slots right.slots) first second

namespace Link

variable {m : Type → Type} [Monad m] [LawfulMonad m] [MonadExceptOf Error m] {α : Type}
  {firstSize secondSize : Nat} {link : Link} {first second : Array α} {firsts seconds : List Block}

theorem Agrees.readSlots_eq (agrees : link.Agrees firstSize secondSize first second)
    (slots : List.Forall₂ link lefts rights) :
    (lefts.mapM (readSlot first) : m (List α)) = rights.mapM (readSlot second) := by
  refine mapM_eq_of_forall₂ slots fun left right linked => ?_
  rcases agrees.same linked with ⟨element, leftFound, rightFound⟩
  rw [readSlot_eq_pure leftFound, readSlot_eq_pure rightFound]

theorem Agrees.readBlocks_eq (agrees : link.Agrees firstSize secondSize first second)
    (blocks : link.Blocks firsts seconds) :
    (readBlocks firsts first : m (List (List α))) = readBlocks seconds second :=
  mapM_eq_of_forall₂ blocks fun _ _ slots => agrees.readSlots_eq slots

theorem Blocks.getElem? (blocks : link.Blocks firsts seconds) (index : Nat) :
    (firsts[index]? = none ∧ seconds[index]? = none) ∨
      ∃ left right, firsts[index]? = some left ∧ seconds[index]? = some right ∧
        List.Forall₂ link left.slots right.slots := by
  induction blocks generalizing index with
  | nil => exact .inl ⟨rfl, rfl⟩
  | cons head _ ih =>
      rcases index with _ | index
      · exact .inr ⟨_, _, rfl, rfl, head⟩
      · exact ih index

theorem Blocks.seedSlots (blocks : link.Blocks firsts seconds) (seed : Seed α) :
    List.Forall₂ (fun left right : Nat × α => link left.1 right.1 ∧ left.2 = right.2)
      (Autodiff.seedSlots firsts seed) (Autodiff.seedSlots seconds seed) := by
  have zipSlots : ∀ {lefts rights : List Nat}, List.Forall₂ link lefts rights →
      ∀ entries : List α,
        List.Forall₂ (fun left right : Nat × α => link left.1 right.1 ∧ left.2 = right.2)
          (lefts.zip entries) (rights.zip entries) := by
    intro lefts rights linked
    induction linked with
    | nil => intro entries; simp
    | cons head _ ih =>
        intro entries
        rcases entries with _ | ⟨entry, entries⟩
        · simp
        · exact .cons ⟨head, rfl⟩ (ih entries)
  induction blocks generalizing seed with
  | nil => simp [Autodiff.seedSlots]
  | cons head _ ih =>
      rcases seed with _ | ⟨entries, seed⟩
      · simp [Autodiff.seedSlots]
      · simp only [Autodiff.seedSlots, List.zip_cons_cons, List.flatMap_cons] at ih ⊢
        exact List.rel_append (zipSlots head entries) (ih seed)

theorem carries_replicate (zero : α)
    (inside : ∀ ⦃left right⦄, link left right → left < firstSize ∧ right < secondSize) :
    link.Carries zero firstSize secondSize (Array.replicate firstSize zero)
      (Array.replicate secondSize zero) := by
  refine ⟨⟨by simp, by simp, ?_⟩, ?_, ?_⟩
  · intro left right linked
    rcases inside linked with ⟨leftInside, rightInside⟩
    exact ⟨zero, by simp [leftInside], by simp [rightInside]⟩
  · intro left leftInside _
    simp [leftInside]
  · intro right rightInside _
    simp [rightInside]

theorem simulates_scatterAdd (algebra : Algebra m α) (matching : link.Matching)
    (inside : ∀ ⦃left right⦄, link left right → left < firstSize ∧ right < secondSize)
    (blocks : link.Blocks firsts seconds) (seed : Seed α) :
    Simulates (link.Carries algebra.zero firstSize secondSize)
      (scatterAdd algebra firstSize firsts seed) (scatterAdd algebra secondSize seconds seed) := by
  refine .foldlM (blocks.seedSlots seed) ?_ (carries_replicate algebra.zero inside)
  rintro _ _ ⟨left, share⟩ ⟨right, _⟩ carries ⟨linked, rfl⟩
  exact carries.simulates_accumulate matching linked share

/-- Seeds of the same blocks, as long as every slot stays inside both arrays. -/
theorem simulates_scatter (algebra : Algebra m α) {blocks : List Block}
    (inside : ∀ block ∈ blocks, ∀ slot ∈ block.slots, slot < firstSize ∧ slot < secondSize)
    (same : ∀ ⦃left right⦄, link left right → left = right ∧ left < firstSize ∧ left < secondSize)
    (seed : Seed α) :
    Simulates (link.Agrees firstSize secondSize) (scatter algebra firstSize blocks seed)
      (scatter algebra secondSize blocks seed) := by
  have seeded : List.Forall₂
      (fun left right : Nat × α => left = right ∧ left.1 < firstSize ∧ left.1 < secondSize)
      (Autodiff.seedSlots blocks seed) (Autodiff.seedSlots blocks seed) := by
    rw [List.forall₂_same]
    rintro ⟨slot, entry⟩ member
    simp only [Autodiff.seedSlots, List.mem_flatMap] at member
    rcases member with ⟨⟨block, entries⟩, blockMem, slotMem⟩
    exact ⟨rfl, inside block (List.of_mem_zip blockMem).1 slot (List.of_mem_zip slotMem).1⟩
  have start : link.Agrees firstSize secondSize (Array.replicate firstSize algebra.zero)
      (Array.replicate secondSize algebra.zero) := by
    refine ⟨by simp, by simp, ?_⟩
    intro left right linked
    rcases same linked with ⟨rfl, leftInside, rightInside⟩
    exact ⟨algebra.zero, by simp [leftInside], by simp [rightInside]⟩
  refine .foldlM seeded ?_ start
  rintro first second ⟨slot, entry⟩ _ agrees ⟨rfl, firstInside, secondInside⟩
  simp only
  rw [writeSlot_eq_pure entry (agrees.firstSized ▸ firstInside),
    writeSlot_eq_pure entry (agrees.secondSized ▸ secondInside)]
  refine .pure ⟨by simpa using agrees.firstSized, by simpa using agrees.secondSized, ?_⟩
  intro left right linked
  rcases same linked with ⟨rfl, leftInside, rightInside⟩
  by_cases written : slot = left
  · subst written
    exact ⟨entry, Array.getElem?_setIfInBounds_self_of_lt (agrees.firstSized ▸ leftInside),
      Array.getElem?_setIfInBounds_self_of_lt (agrees.secondSized ▸ rightInside)⟩
  · rw [Array.getElem?_setIfInBounds_ne written, Array.getElem?_setIfInBounds_ne written]
    exact agrees.same linked

end Link

/-- The two tapes have the same inputs, linked instructions and linked outputs. -/
structure Tape.LinkedBy (before after : Link) (first second : Tape) : Prop where
  instructions : Linked first.numSlots second.numSlots before first.instructions
    second.instructions after
  inputs : second.inputs = first.inputs
  inputsInside : ∀ block ∈ first.inputs, ∀ slot ∈ block.slots,
    slot < first.numSlots ∧ slot < second.numSlots
  before_eq : ∀ ⦃left right⦄, before left right →
    left = right ∧ ∃ block ∈ first.inputs, left ∈ block.slots
  outputs : after.Blocks first.outputs second.outputs
  matching : after.Matching
  inside : ∀ ⦃left right⦄, after left right → left < first.numSlots ∧ right < second.numSlots

namespace Tape.LinkedBy

variable {m : Type → Type} [Monad m] [LawfulMonad m] [MonadExceptOf Error m] {α : Type}
  {before after : Link} {first second : Tape} {firstWork secondWork : Array α}

/-- Both working arrays hold the same inputs. -/
structure SameInputs (first second : Tape) (firstWork secondWork : Array α) : Prop where
  firstSized : firstWork.size = first.numSlots
  secondSized : secondWork.size = second.numSlots
  same : ∀ block ∈ first.inputs, ∀ slot ∈ block.slots, firstWork[slot]? = secondWork[slot]?

variable (linked : LinkedBy before after first second)
include linked

theorem agrees (same : SameInputs first second firstWork secondWork) :
    before.Agrees first.numSlots second.numSlots firstWork secondWork := by
  refine ⟨same.firstSized, same.secondSized, ?_⟩
  intro left right isLinked
  rcases linked.before_eq isLinked with ⟨rfl, block, blockMem, slotMem⟩
  have inside : left < firstWork.size :=
    same.firstSized ▸ (linked.inputsInside block blockMem left slotMem).1
  refine ⟨firstWork[left], by simp [inside], ?_⟩
  rw [← same.same block blockMem left slotMem]
  simp [inside]

theorem primal_eq (algebra : Algebra m α)
    (same : SameInputs first second firstWork secondWork) :
    (first.primal algebra firstWork >>= readBlocks first.outputs) =
      second.primal algebra secondWork >>= readBlocks second.outputs :=
  linked.instructions.simulates_primal algebra (linked.agrees same) 0 _ _
    fun _ _ agrees => agrees.readBlocks_eq linked.outputs

omit linked in
/-- A tape that is linked with itself records the same partials whatever else the arrays hold. -/
theorem recorded_eq {tape : Tape} (linked : LinkedBy before after tape tape) (algebra : Algebra m α)
    (same : SameInputs tape tape firstWork secondWork) :
    Prod.snd <$> tape.recorded algebra firstWork =
      Prod.snd <$> tape.recorded algebra secondWork := by
  simp only [map_eq_pure_bind]
  refine linked.instructions.simulates_recorded algebra (linked.agrees same) [] [] 0 _ _ ?_
  rintro ⟨_, _⟩ ⟨_, _⟩ ⟨_, weights, _, rfl, rfl⟩
  rfl

theorem simulates_inputSeeds (algebra : Algebra m α) (seeds : List (Seed α)) :
    Simulates (List.Forall₂ (before.Agrees first.numSlots second.numSlots))
      (seeds.mapM (scatter algebra first.numSlots first.inputs))
      (seeds.mapM (scatter algebra second.numSlots second.inputs)) := by
  rw [linked.inputs]
  refine .mapM_same fun seed _ => ?_
  refine Link.simulates_scatter algebra linked.inputsInside ?_ seed
  intro left right isLinked
  rcases linked.before_eq isLinked with ⟨rfl, block, blockMem, slotMem⟩
  exact ⟨rfl, linked.inputsInside block blockMem left slotMem⟩

theorem forward_eq (algebra : Algebra m α)
    (same : SameInputs first second firstWork secondWork) (seeds : List (Seed α)) :
    Prod.snd <$> first.forward algebra firstWork seeds =
      Prod.snd <$> second.forward algebra secondWork seeds := by
  simp only [Tape.forward, map_bind, map_pure]
  refine Simulates.eq (.bind (linked.simulates_inputSeeds algebra seeds)
    fun firstDirections secondDirections directions => ?_)
  refine .bind (linked.instructions.simulates_tangents algebra (linked.agrees same) directions 0)
    fun firstState secondState moved => ?_
  rw [moved.1.readBlocks_eq linked.outputs]
  refine .bind (.same _) fun outputs _ equal => ?_
  subst equal
  rw [mapM_eq_of_forall₂ moved.2 fun _ _ agrees => agrees.readBlocks_eq linked.outputs]
  exact .same _

omit [LawfulMonad m] in
/-- A slot of an input has the same adjoint on both sides in the end. If it is linked to nothing,
the adjoint is zero. -/
theorem inputAdjoint_eq {zero : α}
    {firstAdjoints secondAdjoints : Array α}
    (carries : before.Carries zero first.numSlots second.numSlots firstAdjoints secondAdjoints)
    {block : Block} (blockMem : block ∈ first.inputs) {slot : Nat} (slotMem : slot ∈ block.slots) :
    (readSlot firstAdjoints slot : m α) = readSlot secondAdjoints slot := by
  rcases linked.inputsInside block blockMem slot slotMem with ⟨firstInside, secondInside⟩
  by_cases isLinked : before slot slot
  · rcases carries.same isLinked with ⟨element, inFirst, inSecond⟩
    rw [readSlot_eq_pure inFirst, readSlot_eq_pure inSecond]
  · have inFirst := carries.leftZero slot firstInside fun right partner =>
      isLinked ((linked.before_eq partner).1 ▸ partner)
    have inSecond := carries.rightZero slot secondInside fun left partner =>
      isLinked ((linked.before_eq partner).1 ▸ partner)
    rw [readSlot_eq_pure inFirst, readSlot_eq_pure inSecond]

theorem readInputs_eq {zero : α}
    {firstAdjoints secondAdjoints : Array α}
    (carries : before.Carries zero first.numSlots second.numSlots firstAdjoints secondAdjoints) :
    (readBlocks first.inputs firstAdjoints : m (List (List α))) =
      readBlocks second.inputs secondAdjoints := by
  rw [linked.inputs]
  apply mapM_congr_mem
  intro block blockMem
  apply mapM_congr_mem
  intro slot slotMem
  exact linked.inputAdjoint_eq carries blockMem slotMem

theorem reverse_eq (algebra : Algebra m α)
    (same : SameInputs first second firstWork secondWork) (seeds : List (Seed α)) :
    Prod.snd <$> first.reverse algebra firstWork seeds =
      Prod.snd <$> second.reverse algebra secondWork seeds := by
  simp only [Tape.reverse, map_bind, map_pure]
  refine Simulates.eq (.bind (linked.instructions.simulates_recorded algebra (linked.agrees same)
    [] [] 0) fun firstState secondState recorded => ?_)
  rcases recorded with ⟨agrees, weights, length, firstRecord, secondRecord⟩
  rw [agrees.readBlocks_eq linked.outputs, firstRecord, secondRecord, List.append_nil,
    List.append_nil]
  refine .bind (.same _) fun outputs _ equal => ?_
  subst equal
  refine .bind (.mapM_same fun seed _ =>
    Link.simulates_scatterAdd algebra linked.matching linked.inside linked.outputs seed)
    fun firstDirections secondDirections directions => ?_
  refine .bind (linked.instructions.simulates_adjoints algebra length directions)
    fun _ _ moved => ?_
  rw [mapM_eq_of_forall₂ moved fun _ _ carries => linked.readInputs_eq carries]
  exact .same _

end Tape.LinkedBy

/-! ## Dependency masks -/

namespace Tape.LinkedBy

variable {before after : Link} {first second : Tape}

theorem batchSeeds_linked {link : Link} (linked : List.Forall₂ link lefts rights) (batch : Nat) :
    List.Forall₂ (fun left right : Nat × UInt64 => link left.1 right.1 ∧ left.2 = right.2)
      (batchSeeds lefts batch) (batchSeeds rights batch) := by
  have numbered : ∀ {lefts rights : List Nat}, List.Forall₂ link lefts rights → ∀ start : Nat,
      List.Forall₂ (fun left right : Nat × UInt64 => link left.1 right.1 ∧ left.2 = right.2)
        ((lefts.zipIdx start).map fun numbered => (numbered.1, seedMask numbered.2))
        ((rights.zipIdx start).map fun numbered => (numbered.1, seedMask numbered.2)) := by
    intro lefts rights linked
    induction linked with
    | nil => intro start; exact .nil
    | cons head _ ih => intro start; exact .cons ⟨head, rfl⟩ (ih (start + 1))
  exact numbered (List.forall₂_take _ (List.forall₂_drop _ linked)) 0

theorem simulates_seedBatch {link : Link} (matching : link.Matching)
    (inside : ∀ ⦃left right⦄, link left right → left < first.numSlots ∧ right < second.numSlots)
    (linked : List.Forall₂ link lefts rights) (batch : Nat) :
    Simulates (link.Carries 0 first.numSlots second.numSlots)
      (first.seedBatch lefts batch) (second.seedBatch rights batch) := by
  refine .foldlM (batchSeeds_linked linked batch) ?_ (Link.carries_replicate 0 inside)
  rintro _ _ ⟨left, mask⟩ ⟨right, _⟩ carries ⟨isLinked, rfl⟩
  exact carries.simulates_accumulate matching isLinked mask

def inputLink (tape : Tape) : Link :=
  fun left right => left = right ∧ ∃ block ∈ tape.inputs, left ∈ block.slots

theorem forwardBatch_eq (linked : LinkedBy before after first second) (inputMem : input ∈ first.inputs)
    {reads reads' : List Nat} (read : List.Forall₂ after reads reads') (batch : Nat) :
    first.propagateBatch .forward input.slots reads batch =
      second.propagateBatch .forward input.slots reads' batch := by
  have seeded : List.Forall₂ (inputLink first) input.slots input.slots :=
    List.forall₂_same.mpr fun slot slotMem => ⟨rfl, input, inputMem, slotMem⟩
  have matching : (inputLink first).Matching := by
    rintro left _ left' _ ⟨rfl, _⟩ ⟨rfl, _⟩
    exact Iff.rfl
  have inside : ∀ ⦃left right⦄, inputLink first left right →
      left < first.numSlots ∧ right < second.numSlots := by
    rintro slot _ ⟨rfl, block, blockMem, slotMem⟩
    exact linked.inputsInside block blockMem slot slotMem
  refine Simulates.eq (.bind (simulates_seedBatch matching inside seeded batch)
    fun firstWork secondWork carries => ?_)
  have agrees : before.Agrees first.numSlots second.numSlots firstWork secondWork :=
    ⟨carries.firstSized, carries.secondSized, fun left right isLinked =>
      carries.same (linked.before_eq isLinked)⟩
  refine .bind (linked.instructions.simulates_primal masks agrees 0) fun _ _ moved => ?_
  rw [moved.readSlots_eq read]
  exact .same _

theorem maskWeights_eq {firstSize secondSize : Nat} {firsts seconds : List Instruction}
    (linked : Linked firstSize secondSize before firsts seconds after) :
    seconds.map maskWeights = firsts.map maskWeights := by
  induction linked with
  | nil => rfl
  | cons step _ ih => simp only [List.map_cons, maskWeights, step.op_eq, ih]

variable (linked : LinkedBy before after first second)
include linked

theorem adjointBatch_eq (inputMem : input ∈ first.inputs) {seeds seeds' : List Nat}
    (seeded : List.Forall₂ after seeds seeds') (batch : Nat) :
    first.propagateBatch .adjoint seeds input.slots batch =
      second.propagateBatch .adjoint seeds' input.slots batch := by
  have recordEq : ∀ tape : Tape, tape.maskRecord =
      (tape.instructions.zip (tape.instructions.map maskWeights)).reverse := by
    intro tape
    rw [Tape.maskRecord, List.map_reverse, List.map_prod_left_eq_zip]
  refine Simulates.eq (.bind (simulates_seedBatch linked.matching linked.inside seeded batch)
    fun firstWork secondWork carries => ?_)
  simp only [Tape.sweepMasks, recordEq, maskWeights_eq linked.instructions]
  refine .bind (linked.instructions.simulates_adjoint masks (by simp) carries)
    fun _ _ moved => ?_
  rw [mapM_congr_mem fun slot slotMem => linked.inputAdjoint_eq moved inputMem slotMem]
  exact .same _

theorem patternFromBatches_eq (inputMem : input ∈ first.inputs) {output output' : Block}
    (slots : List.Forall₂ after output.slots output'.slots) (direction : Direction) (order : List Nat) :
    first.patternFromBatches input output direction order =
      second.patternFromBatches input output' direction order := by
  simp only [Tape.patternFromBatches, slots.length_eq]
  cases direction with
  | forward => rw [mapM_congr_mem fun batch _ => linked.forwardBatch_eq inputMem slots batch]
  | adjoint => rw [mapM_congr_mem fun batch _ => linked.adjointBatch_eq inputMem slots batch]

theorem jacobianPatternIn_eq (iind oind : Nat) (direction : Direction) :
    first.jacobianPatternIn iind oind direction =
      second.jacobianPatternIn iind oind direction := by
  simp only [Tape.jacobianPatternIn, Tape.block, Tape.blocks, linked.inputs]
  cases found : first.inputs[iind]? with
  | none => rfl
  | some input =>
      have inputMem : input ∈ first.inputs := List.mem_of_getElem? found
      rcases linked.outputs.getElem? oind with ⟨inFirst, inSecond⟩ | ⟨left, right, inFirst,
        inSecond, slots⟩
      · simp only [inFirst, inSecond, linked.outputs.length_eq, ok_bind, error_bind]
      · simp only [inFirst, inSecond, slots.length_eq, ok_bind]
        exact linked.patternFromBatches_eq inputMem slots direction _

theorem preferredDirection_eq (iind oind : Nat) :
    first.preferredDirection iind oind = second.preferredDirection iind oind := by
  simp only [Tape.preferredDirection, Tape.block, Tape.blocks, linked.inputs]
  cases first.inputs[iind]? with
  | none => rfl
  | some input =>
      rcases linked.outputs.getElem? oind with ⟨inFirst, inSecond⟩ | ⟨left, right, inFirst,
        inSecond, slots⟩
      · simp only [inFirst, inSecond, linked.outputs.length_eq, ok_bind, error_bind]
      · simp only [inFirst, inSecond, slots.length_eq, ok_bind]

theorem jacobianPattern_eq (iind oind : Nat) :
    first.jacobianPattern iind oind = second.jacobianPattern iind oind := by
  simp only [Tape.jacobianPattern, linked.preferredDirection_eq, linked.jacobianPatternIn_eq]

end Tape.LinkedBy

end Autodiff
