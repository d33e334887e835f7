import Autodiff.Proofs.Tape.Linked
import Autodiff.Session.Basic

/-!
# What session calls compute

A call checks the shapes of its arguments, copies the inputs into the working array and runs one
sweep. The outcome of each call is given here as a chain of these three steps (`evaluate_outcome`,
`forwardAd_outcome`, `reverseAd_outcome`), without the session's monad.
-/

namespace Autodiff

namespace Session

variable {α β γ : Type}

/-! ## Performing calls -/

theorem perform_bind (session : Session α) (first : SessionM α β) (next : β → SessionM α γ) :
    session.perform (first >>= next) = match session.perform first with
      | (.ok value, after) => after.perform (next value)
      | (.error cause, after) => (.error cause, after) := by
  simp only [perform, ExceptT.run_bind, StateT.run_bind]
  rcases first.run.run session with ⟨_ | _, _⟩ <;> rfl

@[simp] theorem perform_pure (session : Session α) (value : β) :
    session.perform (pure value) = (.ok value, session) := rfl

@[simp] theorem perform_throw (session : Session α) (cause : Error) :
    session.perform (throw cause : SessionM α β) = (.error cause, session) := rfl

@[simp] theorem perform_get (session : Session α) :
    session.perform get = (.ok session, session) := rfl

@[simp] theorem perform_set (session other : Session α) :
    session.perform (set other) = (.ok (), other) := rfl

@[simp] theorem perform_lift (session : Session α) (computed : Except Error β) :
    session.perform (liftM computed) = (computed, session) := by
  cases computed <;> rfl

theorem perform_onWork (session : Session α) (run : Session α → Except Error (Array α × β)) :
    session.perform (onWork run) = match run session with
      | .ok (work, result) => (.ok result, { session with work })
      | .error cause => (.error cause, session) := by
  simp only [onWork, perform_bind, perform_get, perform_lift]
  rcases run session with cause | ⟨work, result⟩ <;> rfl

/-- A session on a tape whose working array holds whatever earlier calls left in it. -/
def holding (tape : Tape) (options : EvalOptions) (algebra : Algebra (Except Error) α) (one : α)
    (work : Vector α tape.numSlots) : Session α :=
  ⟨tape, options, algebra, one, work.toArray⟩

/-! ## Loading inputs -/

def place (entries : List (Nat × α)) (work : Array α) : Array α :=
  entries.foldl (fun work entry => work.setIfInBounds entry.1 entry.2) work

@[simp] theorem size_place (entries : List (Nat × α)) (work : Array α) :
    (place entries work).size = work.size := by
  induction entries generalizing work with
  | nil => rfl
  | cons entry entries ih => exact (ih _).trans (Array.size_setIfInBounds ..)

theorem store_eq_place {entries : List (Nat × α)} {work : Array α}
    (inside : ∀ entry ∈ entries, entry.1 < work.size) :
    store entries work = .ok (place entries work) := by
  induction entries generalizing work with
  | nil => rfl
  | cons entry entries ih =>
      have first : (writeSlot work entry.1 entry.2 : Except Error _) =
          .ok (work.setIfInBounds entry.1 entry.2) :=
        writeSlot_eq_pure entry.2 (inside entry (List.mem_cons_self ..))
      rw [store, List.foldlM_cons, first, ok_bind]
      refine ih fun other member => ?_
      rw [Array.size_setIfInBounds]
      exact inside other (List.mem_cons_of_mem _ member)

theorem place_append (first second : List (Nat × α)) (work : Array α) :
    place (first ++ second) work = place second (place first work) := by
  rw [place, List.foldl_append]
  rfl

variable {blocks : List Block}

theorem place_replicate {size : Nat} (below : SlotsBelow size blocks) (rest : α) (point : List (List α)) :
    place (seedSlots blocks point) (Array.replicate size rest) =
      slotArray size (stored rest blocks point) := by
  have inside := seedSlots_below below point
  have placed : store (seedSlots blocks point) (Array.replicate size rest) = .ok _ :=
    store_eq_place (by simpa using inside)
  rw [store, replicate_eq_slotArray, writeSlot_all inside] at placed
  rw [replicate_eq_slotArray]
  exact (Except.ok.inj placed).symm

def checkPoint (blocks : List Block) (inputs : List (List α)) : Except Error Unit := do
  if inputs.length ≠ blocks.length then
    throw (.evaluation (.inputCount blocks.length inputs.length))
  (blocks.zip inputs).zipIdx.forM checkBlock

theorem perform_loadBlock (session : Session α) {numbered : (Block × List α) × Nat}
    (fits : ∀ slot ∈ numbered.1.1.slots, slot < session.work.size) :
    session.perform (loadBlock numbered) = match checkBlock numbered with
      | .ok () => (.ok (), { session with
          work := place (numbered.1.1.slots.zip numbered.1.2) session.work })
      | .error cause => (.error cause, session) := by
  have stored : store (numbered.1.1.slots.zip numbered.1.2) session.work =
      .ok (place (numbered.1.1.slots.zip numbered.1.2) session.work) :=
    store_eq_place fun entry member => fits entry.1 (List.of_mem_zip member).1
  rw [loadBlock, perform_bind, perform_lift]
  rcases checkBlock numbered with cause | ⟨⟨⟩⟩
  · rfl
  · simp only [perform_bind, perform_get, stored, perform_lift, perform_set]

theorem perform_loadBlocks {numbered : List ((Block × List α) × Nat)} (session : Session α)
    (fits : ∀ entry ∈ numbered, ∀ slot ∈ entry.1.1.slots, slot < session.work.size) :
    ∃ work : Array α, work.size = session.work.size ∧
      session.perform (numbered.forM loadBlock) =
        (numbered.forM checkBlock, { session with work }) ∧
      (numbered.forM checkBlock = .ok () →
        work = place (numbered.flatMap fun entry => entry.1.1.slots.zip entry.1.2)
          session.work) := by
  induction numbered generalizing session with
  | nil => exact ⟨session.work, rfl, rfl, fun _ => rfl⟩
  | cons first rest ih =>
      have loads : (first :: rest).forM (@loadBlock α) =
          (loadBlock first >>= fun _ => rest.forM loadBlock) := rfl
      have checks : (first :: rest).forM (@checkBlock α) =
          (checkBlock first >>= fun _ => rest.forM checkBlock) := rfl
      have firstFits := fits first (List.mem_cons_self ..)
      rw [loads, checks, perform_bind, perform_loadBlock session firstFits]
      rcases checkBlock first with cause | ⟨⟨⟩⟩
      · exact ⟨session.work, rfl, rfl, fun impossible => by cases impossible⟩
      · let between : Session α :=
          { session with work := place (first.1.1.slots.zip first.1.2) session.work }
        have restFits : ∀ entry ∈ rest, ∀ slot ∈ entry.1.1.slots, slot < between.work.size := by
          intro entry member slot slotMem
          rw [size_place]
          exact fits entry (List.mem_cons_of_mem _ member) slot slotMem
        rcases ih between restFits with ⟨work, sized, performed, placed⟩
        refine ⟨work, sized.trans (size_place ..), performed, ?_⟩
        intro checked
        rw [List.flatMap_cons, place_append]
        exact placed checked

theorem flatMap_zipIdx (blocks : List Block) (inputs : List (List α)) :
    (((blocks.zip inputs).zipIdx).flatMap fun entry => entry.1.1.slots.zip entry.1.2) =
      seedSlots blocks inputs := by
  have numbered : ∀ (pairs : List (Block × List α)) (start : Nat),
      ((pairs.zipIdx start).flatMap fun entry => entry.1.1.slots.zip entry.1.2) =
        pairs.flatMap fun pair => pair.1.slots.zip pair.2 := by
    intro pairs
    induction pairs with
    | nil => intro start; rfl
    | cons pair pairs ih =>
        intro start
        rw [List.zipIdx_cons, List.flatMap_cons, List.flatMap_cons, ih]
  exact numbered _ 0

/-! ## Shapes -/

/-- One vector of the right length per block. -/
def Shaped (blocks : List Block) (vectors : List (List α)) : Prop :=
  List.Forall₂ (fun block entries => entries.length = block.slots.length) blocks vectors

variable {vectors : List (List α)}

theorem shaped_iff :
    Shaped blocks vectors ↔ vectors.length = blocks.length ∧
      ∀ pair ∈ blocks.zip vectors, pair.2.length = pair.1.slots.length := by
  rw [Shaped, List.forall₂_iff_zip]
  constructor
  · rintro ⟨length, each⟩
    exact ⟨length.symm, fun pair member => each member⟩
  · rintro ⟨length, each⟩
    exact ⟨length.symm, fun {block entries} member => each (block, entries) member⟩

theorem checkPoint_eq_ok {inputs : List (List α)} :
    checkPoint blocks inputs = .ok () ↔ Shaped blocks inputs := by
  rw [shaped_iff]
  by_cases sameCount : inputs.length = blocks.length
  · have checked : checkPoint blocks inputs = (blocks.zip inputs).zipIdx.forM checkBlock := by
      simp only [checkPoint, sameCount, ne_eq, not_true_eq_false, if_false]
    rw [checked, forM_eq_ok]
    constructor
    · intro each
      refine ⟨sameCount, fun pair member => ?_⟩
      rcases List.mem_iff_getElem?.mp member with ⟨index, found⟩
      have passed := each (pair, index) (List.mk_mem_zipIdx_iff_getElem?.mpr found)
      by_contra wrongLength
      simp [checkBlock, wrongLength] at passed
    · rintro ⟨_, each⟩ ⟨pair, index⟩ member
      have length := each pair (List.fst_mem_of_mem_zipIdx member)
      simp [checkBlock, length]
  · have failed : checkPoint blocks inputs =
        .error (.evaluation (.inputCount blocks.length inputs.length)) := by
      simp only [checkPoint, sameCount, ne_eq, not_false_eq_true, if_true]
      rfl
    rw [failed]
    exact ⟨fun impossible => (by cases impossible), fun both => absurd both.1 sameCount⟩

theorem checkSeed_eq_ok {direction : Nat} {seed : Seed α} :
    checkSeed blocks direction seed = .ok () ↔ Shaped blocks seed := by
  rw [shaped_iff]
  by_cases sameCount : seed.length = blocks.length
  · simp only [checkSeed, sameCount, ne_eq, not_true_eq_false, if_false, true_and]
    refine forM_eq_ok.trans ⟨fun each pair member => ?_, ?_⟩
    · rcases List.mem_iff_getElem?.mp member with ⟨index, found⟩
      have passed := each (pair, index) (List.mk_mem_zipIdx_iff_getElem?.mpr found)
      by_contra wrongLength
      simp only [wrongLength, if_false] at passed
      cases passed
    · rintro each ⟨⟨block, entries⟩, index⟩ member
      have length := each (block, entries) (List.fst_mem_of_mem_zipIdx member)
      simp only [length, if_true]
      rfl
  · simp only [checkSeed, sameCount, ne_eq, not_false_eq_true, if_true, false_and, iff_false]
    intro impossible
    cases impossible

theorem checkSeeds_eq_ok {seeds : List (Seed α)} :
    checkSeeds blocks seeds = .ok () ↔ ∀ seed ∈ seeds, Shaped blocks seed := by
  refine forM_eq_ok.trans ⟨fun each seed member => ?_, fun shaped numbered member => ?_⟩
  · rcases List.mem_iff_getElem?.mp member with ⟨direction, found⟩
    exact checkSeed_eq_ok.mp (each (seed, direction) (List.mk_mem_zipIdx_iff_getElem?.mpr found))
  · exact checkSeed_eq_ok.mpr (shaped numbered.1 (List.fst_mem_of_mem_zipIdx member))

theorem checkSeeds_of_shaped {seeds : List (Seed α)} (shaped : ∀ seed ∈ seeds, Shaped blocks seed) :
    checkSeeds blocks seeds = .ok () :=
  checkSeeds_eq_ok.mpr shaped

theorem Shaped.map_fst_seedSlots (shaped : Shaped blocks vectors) :
    (seedSlots blocks vectors).map Prod.fst = blocks.flatMap Block.slots := by
  induction shaped with
  | nil => rfl
  | cons length _ ih =>
      simp only [seedSlots, List.zip_cons_cons, List.flatMap_cons, List.map_append] at ih ⊢
      rw [ih, List.map_fst_zip (Nat.le_of_eq length.symm)]

theorem Shaped.map_snd_seedSlots (shaped : Shaped blocks vectors) :
    (seedSlots blocks vectors).map Prod.snd = vectors.flatten := by
  induction shaped with
  | nil => rfl
  | cons length _ ih =>
      simp only [seedSlots, List.zip_cons_cons, List.flatMap_cons, List.map_append] at ih ⊢
      rw [ih, List.map_snd_zip (Nat.le_of_eq length), List.flatten_cons]

theorem getElem?_place_congr {entries : List (Nat × α)} {first second : Array α} {slot : Nat}
    (firstInside : slot < first.size) (secondInside : slot < second.size)
    (covered : slot ∈ entries.map Prod.fst ∨ first[slot]? = second[slot]?) :
    (place entries first)[slot]? = (place entries second)[slot]? := by
  induction entries generalizing first second with
  | nil => simpa [place] using covered
  | cons entry entries ih =>
      simp only [place, List.foldl_cons] at ih ⊢
      refine ih (by simpa using firstInside) (by simpa using secondInside) ?_
      by_cases same : entry.1 = slot
      · right
        rw [same, Array.getElem?_setIfInBounds_self_of_lt firstInside,
          Array.getElem?_setIfInBounds_self_of_lt secondInside]
      · rw [Array.getElem?_setIfInBounds_ne same, Array.getElem?_setIfInBounds_ne same]
        rcases covered with isKey | alike
        · left
          rcases List.mem_cons.mp isKey with isFirst | later
          · exact absurd isFirst.symm same
          · exact later
        · exact .inr alike

theorem getElem?_place_of_not_mem {entries : List (Nat × α)} {work : Array α} {slot : Nat}
    (absent : slot ∉ entries.map Prod.fst) : (place entries work)[slot]? = work[slot]? := by
  induction entries generalizing work with
  | nil => rfl
  | cons entry entries ih =>
      rw [List.map_cons, List.mem_cons, not_or] at absent
      refine (ih absent.2).trans ?_
      exact Array.getElem?_setIfInBounds_ne (Ne.symm absent.1)

theorem getElem?_place_of_mem {entries : List (Nat × α)} {work : Array α} {slot : Nat} {element : α}
    (distinct : (entries.map Prod.fst).Nodup) (inside : slot < work.size)
    (member : (slot, element) ∈ entries) : (place entries work)[slot]? = some element := by
  induction entries generalizing work with
  | nil => cases member
  | cons entry entries ih =>
      rw [List.map_cons, List.nodup_cons] at distinct
      rcases List.mem_cons.mp member with rfl | later
      · refine (getElem?_place_of_not_mem distinct.1).trans ?_
        exact Array.getElem?_setIfInBounds_self_of_lt inside
      · exact ih distinct.2 (by simpa using inside) later

variable {point : List (List α)}

theorem Shaped.forall₂_place (shaped : Shaped blocks point) (distinct : (blocks.flatMap Block.slots).Nodup)
    {work : Array α} (inside : ∀ slot ∈ blocks.flatMap Block.slots, slot < work.size) {block : Block}
    {entries : List α} (member : (block, entries) ∈ blocks.zip point) :
    List.Forall₂ (fun slot entry => (place (seedSlots blocks point) work)[slot]? = some entry)
      block.slots entries := by
  have length := (shaped_iff.mp shaped).2 _ member
  refine List.forall₂_iff_zip.mpr ⟨length.symm, fun {slot entry} pairMem => ?_⟩
  have keys : (seedSlots blocks point).map Prod.fst = blocks.flatMap Block.slots :=
    shaped.map_fst_seedSlots
  refine getElem?_place_of_mem (keys ▸ distinct) (inside slot ?_) ?_
  · exact List.mem_flatMap.mpr ⟨block, (List.of_mem_zip member).1, (List.of_mem_zip pairMem).1⟩
  · exact List.mem_flatMap.mpr ⟨(block, entries), member, pairMem⟩

theorem Shaped.map_stored (shaped : Shaped blocks point) (distinct : (blocks.flatMap Block.slots).Nodup) {size : Nat}
    (below : SlotsBelow size blocks) (rest : α) :
    ∀ pair ∈ blocks.zip point, pair.1.slots.map (stored rest blocks point) = pair.2 := by
  rintro ⟨block, entries⟩ member
  have blockMem := (List.of_mem_zip member).1
  have inside : ∀ slot ∈ blocks.flatMap Block.slots, slot < (Array.replicate size rest).size := by
    intro slot slotMem
    rcases List.mem_flatMap.mp slotMem with ⟨other, otherMem, slotMem⟩
    simpa using below other otherMem slot slotMem
  have placed := shaped.forall₂_place distinct inside member
  rw [place_replicate below] at placed
  rw [← List.forall₂_eq_eq_eq, List.forall₂_map_left_iff]
  refine forall₂_imp_of_mem placed fun slot entry slotMem found => ?_
  rw [getElem?_slotArray (below block blockMem slot slotMem)] at found
  exact Option.some.inj found

def InputsFit (session : Session α) : Prop :=
  ∀ block ∈ session.tape.inputs, ∀ slot ∈ block.slots, slot < session.work.size

theorem perform_load (session : Session α) (fits : session.InputsFit) (inputs : List (List α)) :
    ∃ work : Array α, work.size = session.work.size ∧
      session.perform (load inputs) =
        (checkPoint session.tape.inputs inputs, { session with work }) ∧
      (checkPoint session.tape.inputs inputs = .ok () →
        work = place (seedSlots session.tape.inputs inputs) session.work) := by
  by_cases sameCount : inputs.length = session.tape.inputs.length
  · have checked : checkPoint session.tape.inputs inputs =
        (session.tape.inputs.zip inputs).zipIdx.forM checkBlock := by
      simp only [checkPoint, sameCount, ne_eq, not_true_eq_false, if_false]
    have performed : session.perform (load inputs) =
        session.perform ((session.tape.inputs.zip inputs).zipIdx.forM loadBlock) := by
      simp only [load, perform_bind, perform_get, sameCount, ne_eq, not_true_eq_false, if_false]
    have zipFits : ∀ entry ∈ (session.tape.inputs.zip inputs).zipIdx,
        ∀ slot ∈ entry.1.1.slots, slot < session.work.size := by
      intro entry member
      exact fits entry.1.1 (List.of_mem_zip (List.fst_mem_of_mem_zipIdx member)).1
    rw [performed, checked, ← flatMap_zipIdx]
    exact perform_loadBlocks session zipFits
  · have failed : checkPoint session.tape.inputs inputs = .error
        (.evaluation (.inputCount session.tape.inputs.length inputs.length)) := by
      simp only [checkPoint, sameCount, ne_eq, not_false_eq_true, if_true]
      rfl
    refine ⟨session.work, rfl, ?_, ?_⟩
    · rw [failed]
      simp only [load, perform_bind, perform_get, sameCount, ne_eq, not_false_eq_true, if_true,
        perform_throw]
    · rw [failed]
      intro impossible
      cases impossible

/-! ## Calls -/

/-- The working array with the inputs in their slots, if they have the right shape. -/
def loaded (session : Session α) (inputs : List (List α)) : Except Error (Array α) := do
  checkPoint session.tape.inputs inputs
  return place (seedSlots session.tape.inputs inputs) session.work

theorem perform_load_onWork (session : Session α) (fits : session.InputsFit)
    (inputs : List (List α)) (run : Session α → Except Error (Array α × β)) :
    (session.perform (load inputs >>= fun _ => onWork run)).1 =
      (do
        let work ← session.loaded inputs
        let result ← run { session with work }
        return result.2) := by
  rcases perform_load session fits inputs with ⟨work, sized, performed, placed⟩
  rw [perform_bind, performed, loaded]
  rcases checked : checkPoint session.tape.inputs inputs with cause | ⟨⟨⟩⟩
  · rfl
  · rw [placed checked]
    simp only [onWork, perform_bind, perform_get, perform_lift, ok_bind, pure_bind]
    rcases run _ with cause | ⟨work, result⟩
    · rfl
    · rfl

theorem evaluate_outcome (session : Session α) (fits : session.InputsFit)
    (inputs : List (List α)) :
    (session.perform (evaluate inputs)).1 = (do
      let work ← session.loaded inputs
      let final ← session.tape.primal session.algebra work
      readBlocks session.tape.outputs final) := by
  rw [evaluate, perform_load_onWork session fits inputs]
  simp only [bind_assoc, pure_bind, bind_pure]

theorem evaluate_eq_ok {tape : Tape} (below : SlotsBelow tape.numSlots tape.inputs) {options : EvalOptions}
    {algebra : Algebra (Except Error) α} {one : α} {work : Vector α tape.numSlots} {values : List (List α)} :
    ((holding tape options algebra one work).perform (evaluate point)).1 = .ok values ↔
      Shaped tape.inputs point ∧
        ∃ final, tape.primal algebra (place (seedSlots tape.inputs point) work.toArray) = .ok final ∧
          (readBlocks tape.outputs final : Except Error _) = .ok values := by
  have fits : (holding tape options algebra one work).InputsFit := by
    intro block blockMem slot slotMem
    simpa [holding] using below block blockMem slot slotMem
  rw [evaluate_outcome _ fits, loaded, bind_assoc, bind_eq_ok, ← checkPoint_eq_ok]
  simp only [holding, pure_bind, bind_eq_ok]
  constructor
  · rintro ⟨⟨⟩, checked, swept⟩
    exact ⟨checked, swept⟩
  · rintro ⟨checked, swept⟩
    exact ⟨(), checked, swept⟩

theorem perform_checked (session : Session α) (fits : session.InputsFit) (side : Session α → List Block)
    (inputs : List (List α)) (seeds : List (Seed α))
    (run : Session α → Except Error (Array α × β)) :
    (session.perform (do
      checkSeeds (side (← get)) seeds
      load inputs
      onWork run)).1 = (do
        checkSeeds (side session) seeds
        let work ← session.loaded inputs
        Prod.snd <$> run { session with work }) := by
  simp only [perform_bind, perform_get, perform_lift]
  rcases checkSeeds (side session) seeds with cause | ⟨⟨⟩⟩
  · rfl
  · have swept := perform_load_onWork session fits inputs run
    rw [perform_bind] at swept
    simp only [ok_bind, map_eq_pure_bind]
    exact swept

theorem forwardAd_outcome (session : Session α) (fits : session.InputsFit)
    (inputs : List (List α)) (seeds : List (Seed α)) :
    (session.perform (forwardAd inputs seeds)).1 = (do
      checkSeeds session.tape.inputs seeds
      let work ← session.loaded inputs
      Prod.snd <$> session.tape.forward session.algebra work seeds) :=
  perform_checked session fits (fun session => session.tape.inputs) inputs seeds _

theorem reverseAd_outcome (session : Session α) (fits : session.InputsFit)
    (inputs : List (List α)) (seeds : List (Seed α)) :
    (session.perform (reverseAd inputs seeds)).1 = (do
      checkSeeds session.tape.outputs seeds
      let work ← session.loaded inputs
      Prod.snd <$> session.tape.reverse session.algebra work seeds) :=
  perform_checked session fits (fun session => session.tape.outputs) inputs seeds _

end Session

end Autodiff
