import Autodiff.Proofs.Session.Calls
import Autodiff.Proofs.Tape.Renaming

/-!
# Sessions on linked tapes

Two sessions on linked tapes answer every call alike, whatever earlier calls left in their working
arrays: both load the same inputs, and from then on the sweeps over the two tapes are equal.
-/

namespace Autodiff

namespace Tape.LinkedBy

variable {α : Type} {before after : Link} {first second : Tape}
  (linked : LinkedBy before after first second)
include linked

theorem sameInputs_place (firstWork : Vector α first.numSlots) (secondWork : Vector α second.numSlots)
    {point : List (List α)} (shaped : Session.Shaped first.inputs point) :
    SameInputs first second
      (Session.place (seedSlots first.inputs point) firstWork.toArray)
      (Session.place (seedSlots first.inputs point) secondWork.toArray) := by
  refine ⟨by simp, by simp, ?_⟩
  intro block blockMem slot slotMem
  rcases linked.inputsInside block blockMem slot slotMem with ⟨firstInside, secondInside⟩
  refine Session.getElem?_place_congr (by simpa) (by simpa) (.inl ?_)
  rw [shaped.map_fst_seedSlots]
  exact List.mem_flatMap.mpr ⟨block, blockMem, slotMem⟩

variable (options : EvalOptions) (algebra : Algebra (Except Error) α) (one : α)
  (firstWork : Vector α first.numSlots) (secondWork : Vector α second.numSlots)

theorem loaded_bind_eq (point : List (List α))
    {β : Type} {firstRun secondRun : Array α → Except Error β}
    (alike : ∀ firstLoaded secondLoaded, SameInputs first second firstLoaded secondLoaded →
      firstRun firstLoaded = secondRun secondLoaded) :
    ((Session.holding first options algebra one firstWork).loaded point >>= firstRun) =
      (Session.holding second options algebra one secondWork).loaded point >>= secondRun := by
  simp only [Session.loaded, Session.holding, linked.inputs]
  rcases checked : Session.checkPoint first.inputs point with cause | ⟨⟨⟩⟩
  · rfl
  · simp only [ok_bind, pure_bind]
    exact alike _ _
      (linked.sameInputs_place firstWork secondWork (Session.checkPoint_eq_ok.mp checked))

theorem inputsFit_first :
    (Session.holding first options algebra one firstWork).InputsFit := by
  intro block blockMem slot slotMem
  simpa [Session.holding] using (linked.inputsInside block blockMem slot slotMem).1

theorem inputsFit_second :
    (Session.holding second options algebra one secondWork).InputsFit := by
  intro block blockMem slot slotMem
  have blockMem' : block ∈ first.inputs := linked.inputs ▸ blockMem
  simpa [Session.holding] using (linked.inputsInside block blockMem' slot slotMem).2

theorem evaluate_eq (point : List (List α)) :
    ((Session.holding first options algebra one firstWork).perform (Session.evaluate point)).1 =
      ((Session.holding second options algebra one secondWork).perform
        (Session.evaluate point)).1 := by
  rw [Session.evaluate_outcome _ (linked.inputsFit_first options algebra one firstWork),
    Session.evaluate_outcome _ (linked.inputsFit_second options algebra one secondWork)]
  exact linked.loaded_bind_eq options algebra one firstWork secondWork point
    fun _ _ same => linked.primal_eq algebra same

theorem forwardAd_eq (point : List (List α))
    (seeds : List (Seed α)) :
    ((Session.holding first options algebra one firstWork).perform
      (Session.forwardAd point seeds)).1 =
      ((Session.holding second options algebra one secondWork).perform
        (Session.forwardAd point seeds)).1 := by
  rw [Session.forwardAd_outcome _ (linked.inputsFit_first options algebra one firstWork),
    Session.forwardAd_outcome _ (linked.inputsFit_second options algebra one secondWork)]
  have sameCheck : checkSeeds second.inputs seeds = checkSeeds first.inputs seeds := by
    rw [linked.inputs]
  simp only [Session.holding, sameCheck]
  refine bind_congr fun _ => ?_
  exact linked.loaded_bind_eq options algebra one firstWork secondWork point
    fun _ _ same => linked.forward_eq algebra same seeds

omit linked in
theorem checkSeeds_eq {link : Link} {firsts seconds : List Block}
    (blocks : link.Blocks firsts seconds) (seeds : List (Seed α)) :
    checkSeeds firsts seeds = checkSeeds seconds seeds := by
  have entries : ∀ (check : Nat → List α → Nat → Except Error Unit) (seed : Seed α)
      (start : Nat),
      (((firsts.zip seed).zipIdx start).forM fun numbered =>
        check numbered.1.1.slots.length numbered.1.2 numbered.2) =
      (((seconds.zip seed).zipIdx start).forM fun numbered =>
        check numbered.1.1.slots.length numbered.1.2 numbered.2) := by
    intro check
    induction blocks with
    | nil => intro seed start; rfl
    | cons slots _ ih =>
        intro seed start
        rcases seed with _ | ⟨values, seed⟩
        · rfl
        · simp only [List.zip_cons_cons, List.zipIdx_cons, List.forM_eq_forM, List.forM_cons]
            at ih ⊢
          rw [slots.length_eq, ih]
  have each : ∀ numbered : Seed α × Nat,
      checkSeed firsts numbered.2 numbered.1 = checkSeed seconds numbered.2 numbered.1 := by
    intro numbered
    have inside := entries (fun count values index => if values.length = count then pure ()
      else throw (.evaluation (.seedShape numbered.2 index count values.length))) numbered.1 0
    simp only [checkSeed, blocks.length_eq, inside]
  simp only [checkSeeds, each]

theorem reverseAd_eq (point : List (List α))
    (seeds : List (Seed α)) :
    ((Session.holding first options algebra one firstWork).perform
      (Session.reverseAd point seeds)).1 =
      ((Session.holding second options algebra one secondWork).perform
        (Session.reverseAd point seeds)).1 := by
  rw [Session.reverseAd_outcome _ (linked.inputsFit_first options algebra one firstWork),
    Session.reverseAd_outcome _ (linked.inputsFit_second options algebra one secondWork)]
  simp only [Session.holding, checkSeeds_eq linked.outputs]
  refine bind_congr fun _ => ?_
  exact linked.loaded_bind_eq options algebra one firstWork secondWork point
    fun _ _ same => linked.reverse_eq algebra same seeds

end Tape.LinkedBy

end Autodiff
