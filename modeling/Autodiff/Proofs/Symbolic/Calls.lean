import Autodiff.Proofs.Session.Directions
import Autodiff.Proofs.Symbolic.Sweeps
import Autodiff.Symbolic.Derivative

/-!
# Symbolic calls

A symbolic call checks its arguments, puts the given expressions into the input slots and runs a sweep over
expressions. If the arguments denote elements, the results denote what the sweep over these elements gives:
the executed outputs (`completes_evalSymbolic`), and for each seed what pushing it forward
(`completes_forwardSymbolic`) or pulling it back (`completes_reverseSymbolic`) over the partials gives.
-/

namespace Autodiff

variable {blocks : List Block}

/-! ## Loading expressions -/

namespace GraphM

variable {α β γ : Type} {graph : Graph}

/-- A loop of queries, each of which acts on a view of some state. -/
theorem run_foldlM {step : β → α → GraphM β} (view : γ → β) {next : γ → α → γ} {elements : List α}
    (each : ∀ state, ∀ element ∈ elements,
      (step (view state) element).run.run graph = (.ok (view (next state element)), graph))
    (state : γ) :
    (elements.foldlM step (view state)).run.run graph =
      (.ok (view (elements.foldl next state)), graph) := by
  induction elements generalizing state with
  | nil => rfl
  | cons element elements ih =>
      rw [List.foldlM_cons]
      refine (run_bind_of_ok (each state element List.mem_cons_self) _).trans ?_
      exact ih (fun state other member => each state other (List.mem_cons_of_mem _ member)) _

theorem run_forM {action : α → GraphM Unit} {elements : List α}
    (each : ∀ element ∈ elements, (action element).run.run graph = (.ok (), graph)) :
    (elements.forM action).run.run graph = (.ok (), graph) := by
  induction elements with
  | nil => rfl
  | cons element elements ih =>
      refine (run_bind_of_ok (each element List.mem_cons_self) _).trans ?_
      exact ih fun other member => each other (List.mem_cons_of_mem _ member)

end GraphM

def Graph.Knows (graph : Graph) (seed : Seed Handle) : Prop :=
  ∀ entries ∈ seed, ∀ handle ∈ entries, ∃ pattern, graph.pattern handle = .ok pattern

namespace Tape

variable {tape : Tape} {graph : Graph} {size : Nat}

theorem run_placeExpression {entry : Nat × Handle} {pattern : Pattern}
    (known : graph.pattern entry.2 = .ok pattern) (inside : entry.1 < size) (values : Nat → Handle) :
    (placeExpression (slotArray size values) entry).run.run graph =
      (.ok (slotArray size (Function.update values entry.1 entry.2)), graph) := by
  refine (GraphM.run_bind_of_ok (GraphM.run_check known) _).trans ?_
  rw [writeSlot_slotArray inside]
  rfl

theorem run_placeBlock {block : Block} {entries : List Handle} {index : Nat}
    (sameLength : entries.length = block.slots.length)
    (known : ∀ handle ∈ entries, ∃ pattern, graph.pattern handle = .ok pattern)
    (below : ∀ slot ∈ block.slots, slot < size) (values : Nat → Handle) :
    (placeBlock (slotArray size values) ((block, entries), index)).run.run graph =
      (.ok (slotArray size ((block.slots.zip entries).foldl (fun values entry =>
        Function.update values entry.1 entry.2) values)), graph) := by
  simp only [placeBlock, sameLength, ne_eq, not_true_eq_false, if_false]
  apply GraphM.run_foldlM (slotArray size)
  intro values entry member
  rcases List.of_mem_zip member with ⟨slotMem, handleMem⟩
  rcases known entry.2 handleMem with ⟨pattern, isKnown⟩
  exact run_placeExpression isKnown (below entry.1 slotMem) values

/-- The working array holds the given expressions in the input slots and zero elsewhere. -/
theorem run_symbolicWork {inputs : List (List Handle)} (below : SlotsBelow tape.numSlots tape.inputs)
    (shaped : Session.Shaped tape.inputs inputs) (known : graph.Knows inputs) :
    (tape.symbolicWork inputs).run.run graph =
      (.ok (slotArray tape.numSlots (stored .zero tape.inputs inputs)), graph) := by
  rcases Session.shaped_iff.mp shaped with ⟨sameCount, sameLength⟩
  simp only [symbolicWork, sameCount, ne_eq, not_true_eq_false, if_false, replicate_eq_slotArray,
    stored, ← Session.flatMap_zipIdx, List.foldl_flatMap]
  apply GraphM.run_foldlM (slotArray tape.numSlots)
  rintro values ⟨⟨block, entries⟩, index⟩ member
  have pairMem := List.fst_mem_of_mem_zipIdx member
  rcases List.of_mem_zip pairMem with ⟨blockMem, entriesMem⟩
  exact run_placeBlock (sameLength _ pairMem) (known entries entriesMem) (below block blockMem) values

theorem run_checkSeedHandles {seeds : List (Seed Handle)}
    (known : ∀ seed ∈ seeds, graph.Knows seed) :
    (checkSeedHandles seeds).run.run graph = (.ok (), graph) := by
  apply GraphM.run_forM
  intro seed seedMem
  apply GraphM.run_forM
  intro entries entriesMem
  apply GraphM.run_forM
  intro handle handleMem
  rcases known seed seedMem entries entriesMem handle handleMem with ⟨pattern, isKnown⟩
  exact GraphM.run_check isKnown

end Tape

namespace Reading

/-! ## Seeds -/

section Seeds

variable {K : Type} [Zero K] {reading : Reading K} {world : World} {size : Nat}
  {seed : Seed Handle} {entries : Seed K}

def DenotesSeed (reading : Reading K) (world : World) (seed : Seed Handle) (entries : Seed K) :
    Prop :=
  List.Forall₂ (List.Forall₂ (reading.Denotes world)) seed entries

theorem DenotesSeed.stays (seed : Seed Handle) (entries : Seed K) :
    World.Stays fun world => reading.DenotesSeed world seed entries := by
  intro before after grows denotes
  exact denotes.imp fun _ _ each => each.imp fun _ _ denotes => denotes.grow grows

theorem DenotesSeed.grow {later : World} (denotes : reading.DenotesSeed world seed entries)
    (grows : world ≤ later) : reading.DenotesSeed later seed entries :=
  stays seed entries grows denotes

theorem DenotesSeed.knows (denotes : reading.DenotesSeed world seed entries) :
    world.graph.Knows seed := by
  intro handles handlesMem handle handleMem
  rcases exists_related denotes handlesMem with ⟨elements, _, related⟩
  rcases exists_related related handleMem with ⟨element, _, isDenoted⟩
  exact ⟨_, isDenoted.isScalar⟩

/-- A slot with an expression, and the same slot with the element that it denotes. -/
def DenotesEntry (reading : Reading K) (world : World) (entry : Nat × Handle)
    (element : Nat × K) : Prop :=
  entry.1 = element.1 ∧ reading.Denotes world entry.2 element.2

theorem DenotesSeed.seedSlots (denotes : reading.DenotesSeed world seed entries)
    (blocks : List Block) :
    List.Forall₂ (reading.DenotesEntry world) (seedSlots blocks seed) (seedSlots blocks entries) := by
  refine List.rel_flatMap (forall₂_zip_left denotes blocks) ?_
  rintro ⟨block, handles⟩ ⟨_, elements⟩ ⟨rfl, related⟩
  exact forall₂_zip_left related block.slots

theorem DenotesSeed.fills (denotes : reading.DenotesSeed world seed entries) (lawful : reading.Lawful)
    (size : Nat) (blocks : List Block) :
    reading.Fills size world (slotArray size (stored .zero blocks seed)) (stored 0 blocks entries) := by
  refine ⟨_, rfl, fun slot _ => ?_⟩
  have related : ∀ slot, reading.Denotes world (stored .zero blocks seed slot)
      (stored 0 blocks entries slot) := by
    refine List.rel_foldl (P := fun (handles : Nat → Handle) (elements : Nat → K) => ∀ slot, reading.Denotes world
      (handles slot) (elements slot)) ?_ (fun _ => denotes_zero lawful world) (denotes.seedSlots blocks)
    rintro handles elements allDenote ⟨slot, handle⟩ ⟨_, element⟩ ⟨rfl, isDenoted⟩ other
    by_cases same : other = slot
    · subst same
      simpa using isDenoted
    · simpa [same] using allDenote other
  exact related slot

theorem DenotesSeed.completes_scatter (denotes : reading.DenotesSeed world seed entries) (lawful : reading.Lawful)
    (below : SlotsBelow size blocks) :
    Completes world (scatter expressions size blocks seed) (scatter expressions size blocks seed)
      fun world array => reading.Fills size world array (stored 0 blocks entries) := by
  have inside := seedSlots_below below seed
  simp only [scatter, replicate_eq_slotArray, writeSlot_all inside]
  exact .pure (denotes.fills lawful size blocks)

end Seeds

section SeedSums

variable {K : Type} [CommSemiring K] {reading : Reading K} {world : World} {size : Nat}
  {array : Array Handle} {values : Nat → K}

theorem Linear.accumulateAll (linear : reading.Linear) {entries : List (Nat × Handle)}
    {elements : List (Nat × K)} (related : List.Forall₂ (reading.DenotesEntry world) entries elements)
    (inside : ∀ entry ∈ entries, entry.1 < size) (fills : reading.Fills size world array values) :
    Completes world
      (entries.foldlM (fun array (entry : Nat × Handle) =>
        Instruction.accumulate expressions array entry.1 entry.2) array)
      (entries.foldlM (fun array (entry : Nat × Handle) =>
        Instruction.accumulate expressions array entry.1 entry.2) array)
      fun world array => reading.Fills size world array (values + spread elements) := by
  induction entries generalizing world array values elements with
  | nil =>
      cases related
      exact .pure (by simpa using fills)
  | cons entry entries ih =>
      rcases List.forall₂_cons_left_iff.mp related with ⟨element, rest, ⟨same, denotes⟩, tail, rfl⟩
      rw [List.forall_mem_cons] at inside
      rw [List.foldlM_cons, List.foldlM_cons]
      apply (linear.accumulate inside.1 fills denotes).bind
      intro later next grows nextFills
      have tailLater := tail.imp fun _ _ both => And.intro both.1 (both.2.grow grows)
      have finished := ih tailLater inside.2 nextFills
      rw [same, add_assoc] at finished
      rw [spread_cons]
      exact finished

theorem Linear.completes_scatterAdd (linear : reading.Linear) {seed : Seed Handle} {entries : Seed K}
    (denotes : reading.DenotesSeed world seed entries) (below : SlotsBelow size blocks) :
    Completes world (scatterAdd expressions size blocks seed)
      (scatterAdd expressions size blocks seed)
      fun world array => reading.Fills size world array (spread (seedSlots blocks entries)) := by
  have finished := linear.accumulateAll (denotes.seedSlots blocks) (seedSlots_below below seed)
    (fills_replicate linear.toLawful size world)
  have unmoved : (fun _ => 0 : Nat → K) + spread (Autodiff.seedSlots blocks entries) =
      spread (Autodiff.seedSlots blocks entries) := zero_add _
  rw [unmoved] at finished
  exact finished

end SeedSums

/-! ## Calls -/

section Evaluating

variable {K : Type} [Zero K] {reading : Reading K} {world : World} {tape : Tape}
  {inputs : Seed Handle} {point : Seed K}

theorem Fills.readSeed {size : Nat} {array : Array Handle} {values : Nat → K}
    (fills : reading.Fills size world array values) (below : SlotsBelow size blocks) :
    Completes world (Autodiff.readBlocks blocks array) (Autodiff.readBlocks blocks array)
      fun world seed => reading.DenotesSeed world seed
        (Seed.ofVector blocks fun entry => values entry.slot) := by
  rw [← Seed.ofVector_slots]
  exact fills.readBlocks below

theorem DenotesSeed.completes_symbolicWork {β : Type} (denotes : reading.DenotesSeed world inputs point)
    (lawful : reading.Lawful) (bounded : tape.Bounded) (shaped : Session.Shaped tape.inputs inputs)
    {traced : Array Handle → TracedM β} {plain : Array Handle → GraphM β}
    {property : World → β → Prop}
    (next : ∀ work, reading.Fills tape.numSlots world work (stored 0 tape.inputs point) →
      Completes world (traced work) (plain work) property) :
    Completes world (liftM (tape.symbolicWork inputs) >>= traced)
      (liftM (tape.symbolicWork inputs) >>= plain) property :=
  .query_bind (Tape.run_symbolicWork bounded.inputs shaped denotes.knows)
    (next _ (denotes.fills lawful tape.numSlots tape.inputs))

theorem completes_evalSymbolic (lawful : reading.Lawful) (bounded : tape.Bounded)
    (allowed : ∀ instruction ∈ tape.instructions, reading.vocabulary.AllowsOp instruction.op)
    (shaped : Session.Shaped tape.inputs inputs) (denotes : reading.DenotesSeed world inputs point) :
    Completes world (tape.evalSymbolic inputs) (tape.evalSymbolic inputs)
      fun world outputs => reading.DenotesSeed world outputs
        (Seed.ofVector tape.outputs fun output =>
          executeAll reading.meaning tape.instructions (stored 0 tape.inputs point) output.slot) := by
  apply denotes.completes_symbolicWork lawful bounded shaped
  intro work fills
  apply (fills.primal lawful bounded.instructions allowed 0).bind
  intro later final grows executed
  exact executed.readSeed bounded.outputs

end Evaluating

section Differentiating

variable {K : Type} [CommSemiring K] {reading : Reading K} {rules : DerivativeRules K}
  {world : World} {tape : Tape} {inputs : Seed Handle} {point : Seed K} {seeds : List (Seed Handle)}
  {directions : List (Seed K)}

/-- The outputs and the sensitivities of every direction denote given elements. -/
structure DenotesDerivatives (reading : Reading K) (world : World) (found : Derivatives Handle)
    (elements : Derivatives K) : Prop where
  outputs : reading.DenotesSeed world found.outputs elements.outputs
  sensitivities : List.Forall₂ (reading.DenotesSeed world) found.sensitivities elements.sensitivities

/-- What the outputs hold and what the directions become, if the slots hold given elements at the start. -/
abbrev swept (reading : Reading K) (rules : DerivativeRules K) (tape : Tape) (values : Nat → K)
    (move : Tape → Record K → Seed K → Seed K) (directions : List (Seed K)) : Derivatives K :=
  ⟨Seed.ofVector tape.outputs fun output => executeAll reading.meaning tape.instructions values output.slot,
    directions.map (move tape (recordAll rules reading.meaning tape.instructions values []))⟩

theorem completes_readSeeds {size : Nat} {arrays : List (Array Handle)} {values : List (Nat → K)}
    (fills : reading.FillsAll size world arrays values) (below : SlotsBelow size blocks) :
    Completes world (arrays.mapM (readBlocks blocks)) (arrays.mapM (readBlocks blocks))
      fun world found => List.Forall₂ (reading.DenotesSeed world) found
        (values.map fun values => Seed.ofVector blocks fun entry => values entry.slot) := by
  simp only [List.forall₂_map_right_iff]
  apply Completes.mapM fills (fun array values => Fills.stays array values)
  · exact fun found values => DenotesSeed.stays found _
  · exact fun later array values _ fills => fills.readSeed below

variable (seedsDenote : List.Forall₂ (reading.DenotesSeed world) seeds directions)
include seedsDenote

theorem knows_seeds :
    ∀ seed ∈ seeds, world.graph.Knows seed := by
  intro seed member
  rcases exists_related seedsDenote member with ⟨direction, _, seedDenotes⟩
  exact seedDenotes.knows

variable (linear : reading.Linear) (derives : reading.Derives rules) (bounded : tape.Bounded)
  (allowed : ∀ instruction ∈ tape.instructions, reading.vocabulary.AllowsOp instruction.op)
include linear derives bounded allowed

theorem Linear.completes_forward {work : Array Handle} {values : Nat → K}
    (fills : reading.Fills tape.numSlots world work values) :
    Completes world (tape.forward expressions work seeds) (tape.forward expressions work seeds)
      fun world found => reading.DenotesDerivatives world found.2
        (reading.swept rules tape values (Arithmetic.linear K).pushedSeed directions) := by
  have scattered : Completes world (seeds.mapM (scatter expressions tape.numSlots tape.inputs))
      (seeds.mapM (scatter expressions tape.numSlots tape.inputs)) fun world arrays =>
        reading.FillsAll tape.numSlots world arrays (directions.map (stored 0 tape.inputs)) := by
    simp only [FillsAll, List.forall₂_map_right_iff]
    apply Completes.mapM seedsDenote (fun seed direction => DenotesSeed.stays seed direction)
    · exact fun array direction => Fills.stays array _
    · intro later seed direction _ seedDenotes
      exact seedDenotes.completes_scatter linear.toLawful bounded.inputs
  apply scattered.bind
  intro first tangents growsFirst tangentsFill
  have unmoved : (directions.map (stored 0 tape.inputs)).map (Record.pushed []) =
      directions.map (stored 0 tape.inputs) := List.map_id _
  have firstFills : reading.Fills tape.numSlots first work values :=
    Fills.stays work values growsFirst fills
  rw [← unmoved] at tangentsFill
  apply (linear.tangents derives bounded.instructions allowed 0 firstFills tangentsFill).bind
  rintro second ⟨final, pushed⟩ growsSecond ⟨finalFills, pushedFill⟩
  apply (finalFills.readSeed bounded.outputs).bind
  intro third outputs growsThird outputsDenote
  apply (completes_readSeeds (pushedFill.grow growsThird) bounded.outputs).bind
  intro fourth sensitivities growsFourth sensitivitiesDenote
  refine .pure ⟨outputsDenote.grow growsFourth, ?_⟩
  have isZero : (Arithmetic.linear K).zero = 0 := rfl
  simpa [Function.comp_def, Arithmetic.pushedSeed, Arithmetic.pushAll_linear, isZero]
    using sensitivitiesDenote

theorem Linear.completes_reverse {work : Array Handle} {values : Nat → K}
    (fills : reading.Fills tape.numSlots world work values) :
    Completes world (tape.reverse expressions work seeds) (tape.reverse expressions work seeds)
      fun world found => reading.DenotesDerivatives world found.2
        (reading.swept rules tape values (Arithmetic.linear K).pulledSeed directions) := by
  have records := Tape.records_recordAll rules reading.meaning tape values
  apply (fills.recorded derives linear.toLawful bounded.instructions allowed 0 .nil).bind
  rintro first ⟨final, record⟩ growsFirst ⟨finalFills, recordDenotes⟩
  apply (finalFills.readSeed bounded.outputs).bind
  intro second outputs growsSecond outputsDenote
  have scattered : Completes second (seeds.mapM (scatterAdd expressions tape.numSlots tape.outputs))
      (seeds.mapM (scatterAdd expressions tape.numSlots tape.outputs)) fun world arrays =>
        reading.FillsAll tape.numSlots world arrays
          (directions.map fun direction => spread (seedSlots tape.outputs direction)) := by
    have seedsLater := seedsDenote.imp fun seed direction denotes =>
      DenotesSeed.grow denotes (growsFirst.trans growsSecond)
    simp only [FillsAll, List.forall₂_map_right_iff]
    apply Completes.mapM seedsLater (fun seed direction => DenotesSeed.stays seed direction)
    · exact fun array direction => Fills.stays array _
    · exact fun later seed direction _ seedDenotes => linear.completes_scatterAdd seedDenotes bounded.outputs
  apply scattered.bind
  intro third adjoints growsThird adjointsFill
  have recordLater := recordDenotes.grow (growsSecond.trans growsThird)
  apply (linear.adjoints (records.inside bounded) recordLater adjointsFill).bind
  intro fourth pulled growsFourth pulledFill
  apply (completes_readSeeds pulledFill bounded.inputs).bind
  intro fifth sensitivities growsFifth sensitivitiesDenote
  refine .pure ⟨outputsDenote.grow ((growsThird.trans growsFourth).trans growsFifth), ?_⟩
  simpa [Function.comp_def, Arithmetic.pulledSeed, Arithmetic.pullAll_linear,
    Arithmetic.adjointsOf_linear] using sensitivitiesDenote

variable (shaped : Session.Shaped tape.inputs inputs) (denotes : reading.DenotesSeed world inputs point)
include shaped denotes

theorem completes_forwardSymbolic (seedsShaped : ∀ seed ∈ seeds, Session.Shaped tape.inputs seed) :
    Completes world (tape.forwardSymbolic inputs seeds) (tape.forwardSymbolic inputs seeds)
      fun world found => reading.DenotesDerivatives world found
        (reading.swept rules tape (stored 0 tape.inputs point) (Arithmetic.linear K).pushedSeed directions) := by
  apply Completes.liftExcept_bind (Session.checkSeeds_of_shaped seedsShaped)
  apply denotes.completes_symbolicWork linear.toLawful bounded shaped
  intro work fills
  apply Completes.query_bind (Tape.run_checkSeedHandles (knows_seeds seedsDenote))
  apply (linear.completes_forward seedsDenote derives bounded allowed fills).bind
  intro later found _ foundDenotes
  exact .pure foundDenotes

theorem completes_reverseSymbolic (seedsShaped : ∀ seed ∈ seeds, Session.Shaped tape.outputs seed) :
    Completes world (tape.reverseSymbolic inputs seeds) (tape.reverseSymbolic inputs seeds)
      fun world found => reading.DenotesDerivatives world found
        (reading.swept rules tape (stored 0 tape.inputs point) (Arithmetic.linear K).pulledSeed directions) := by
  apply Completes.liftExcept_bind (Session.checkSeeds_of_shaped seedsShaped)
  apply Completes.query_bind (Tape.run_checkSeedHandles (knows_seeds seedsDenote))
  apply denotes.completes_symbolicWork linear.toLawful bounded shaped
  intro work fills
  apply (linear.completes_reverse seedsDenote derives bounded allowed fills).bind
  intro later found _ foundDenotes
  exact .pure foundDenotes

end Differentiating

end Reading

end Autodiff
