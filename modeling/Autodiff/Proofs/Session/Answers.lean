import Autodiff.Proofs.Session.Calls
import Autodiff.Session.Jacobian

/-!
# Calls that always answer alike

A call answers with a result if it succeeds with this result whatever the working array holds, and leaves a
session of the same kind behind. Calls that are put together from such calls answer in turn, so the
calls that run many sweeps on one array are understood sweep by sweep.
-/

namespace Autodiff

/-! ## Pieces -/

theorem mem_of_mem_pieces {β : Type} {rest : Nat} {elements piece : List β}
    (isPiece : piece ∈ pieces rest elements) {element : β} (member : element ∈ piece) :
    element ∈ elements := by
  induction elements using pieces.induct rest with
  | case1 => simp [pieces] at isPiece
  | case2 first others ih =>
      rw [pieces, List.mem_cons] at isPiece
      rcases isPiece with rfl | later
      · rcases List.mem_cons.mp member with rfl | taken
        · exact List.mem_cons_self ..
        · exact List.mem_cons_of_mem _ (List.mem_of_mem_take taken)
      · exact List.mem_cons_of_mem _ (List.mem_of_mem_drop (ih later))

theorem flatten_pieces {β : Type} (rest : Nat) (elements : List β) :
    (pieces rest elements).flatten = elements := by
  induction elements using pieces.induct rest with
  | case1 => simp [pieces]
  | case2 first others ih =>
      rw [pieces, List.flatten_cons, ih, List.cons_append, List.take_append_drop]

/-- The sensitivities of all pieces, one after the other, are those of the whole list. -/
theorem sensitivities_pieces {α : Type} (rest : Nat) (values : List (List α))
    (sensitivity : Seed α → Seed α) (seeds : List (Seed α)) :
    ((pieces rest seeds).map fun piece =>
        (⟨values, piece.map sensitivity⟩ : Derivatives α)).flatMap Derivatives.sensitivities =
      seeds.map sensitivity := by
  conv_rhs => rw [← flatten_pieces rest seeds, List.map_flatten]
  rw [List.flatMap_map]
  rfl

namespace Session

variable {α β γ : Type} (tape : Tape) (options : EvalOptions) (algebra : Algebra (Except Error) α)
  (one : α)

/-- Whatever the working array holds, the call succeeds with the result and leaves a session of the same
kind behind. -/
def Answers (call : SessionM α β) (result : β) : Prop :=
  ∀ work : Vector α tape.numSlots, ∃ after : Vector α tape.numSlots,
    (holding tape options algebra one work).perform call =
      (.ok result, holding tape options algebra one after)

variable {tape options algebra one}

namespace Answers

theorem outcome {call : SessionM α β} {result : β}
    (answers : Answers tape options algebra one call result) (work : Vector α tape.numSlots) :
    ((holding tape options algebra one work).perform call).1 = .ok result := by
  rcases answers work with ⟨after, performed⟩
  rw [performed]

theorem pure (result : β) : Answers tape options algebra one (pure result) result :=
  fun work => ⟨work, rfl⟩

theorem bind {first : SessionM α β} {value : β} {next : β → SessionM α γ} {result : γ}
    (answers : Answers tape options algebra one first value)
    (nextAnswers : Answers tape options algebra one (next value) result) :
    Answers tape options algebra one (first >>= next) result := by
  intro work
  rcases answers work with ⟨between, performed⟩
  rcases nextAnswers between with ⟨after, nextPerformed⟩
  exact ⟨after, by rw [perform_bind, performed]; exact nextPerformed⟩

theorem get_bind {next : Session α → SessionM α β} {result : β}
    (answers : ∀ work : Vector α tape.numSlots,
      Answers tape options algebra one (next (holding tape options algebra one work)) result) :
    Answers tape options algebra one (get >>= next) result := by
  intro work
  rcases answers work work with ⟨after, performed⟩
  exact ⟨after, by rw [perform_bind, perform_get]; exact performed⟩

theorem lift {computed : Except Error β} {result : β} (succeeds : computed = .ok result) :
    Answers tape options algebra one (liftM computed) result := by
  intro work
  exact ⟨work, by rw [perform_lift, succeeds]⟩

theorem mapM {run : β → SessionM α γ} {elements : List β} {result : β → γ}
    (each : ∀ element ∈ elements, Answers tape options algebra one (run element) (result element)) :
    Answers tape options algebra one (elements.mapM run) (elements.map result) := by
  induction elements with
  | nil => exact .pure []
  | cons element elements ih =>
      rw [List.forall_mem_cons] at each
      rw [List.mapM_cons]
      exact each.1.bind ((ih each.2).bind (.pure _))

variable {values : List (List α)} {seeds : List (Seed α)}

theorem packed {sweep : List (Seed α) → SessionM α (Derivatives α)} {sensitivity : Seed α → Seed α}
    (each : ∀ piece : List (Seed α), (∀ seed ∈ piece, seed ∈ seeds) →
      Answers tape options algebra one (sweep piece) ⟨values, piece.map sensitivity⟩) (rest : Nat) :
    Answers tape options algebra one (Session.packed sweep rest seeds) (seeds.map sensitivity) := by
  have swept : Answers tape options algebra one ((pieces rest seeds).mapM sweep)
      ((pieces rest seeds).map fun piece => ⟨values, piece.map sensitivity⟩) :=
    .mapM fun piece isPiece => each piece fun seed member => mem_of_mem_pieces isPiece member
  rw [← sensitivities_pieces rest values]
  exact swept.bind (.pure _)

/-! ## Sweeps -/

variable {point : List (List α)}

theorem load_onWork (shaped : Shaped tape.inputs point) (below : SlotsBelow tape.numSlots tape.inputs)
    {run : Session α → Except Error (Array α × β)} {result : β}
    (ran : ∀ work : Vector α tape.numSlots, ∃ final : Array α, final.size = tape.numSlots ∧
      run ⟨tape, options, algebra, one, place (seedSlots tape.inputs point) work.toArray⟩ =
        .ok (final, result)) :
    Answers tape options algebra one (load point >>= fun _ => onWork run) result := by
  intro work
  have fits : (holding tape options algebra one work).InputsFit := by
    intro block blockMem slot slotMem
    simpa [holding] using below block blockMem slot slotMem
  rcases perform_load _ fits point with ⟨loaded, _, performed, placed⟩
  have checked : checkPoint (holding tape options algebra one work).tape.inputs point = .ok () :=
    checkPoint_eq_ok.mpr shaped
  rcases ran work with ⟨final, sized, finished⟩
  refine ⟨⟨final, sized⟩, ?_⟩
  rw [perform_bind, performed, checked, placed checked]
  simp only [holding] at finished ⊢
  simp only [onWork, perform_bind, perform_get, perform_lift, finished, perform_set, perform_pure]

theorem evaluate (shaped : Shaped tape.inputs point) (below : SlotsBelow tape.numSlots tape.inputs)
    (ran : ∀ work : Vector α tape.numSlots, ∃ final : Array α, final.size = tape.numSlots ∧
      tape.primal algebra (place (seedSlots tape.inputs point) work.toArray) = .ok final ∧
        (readBlocks tape.outputs final : Except Error _) = .ok values) :
    Answers tape options algebra one (Session.evaluate point) values := by
  refine load_onWork shaped below fun work => ?_
  rcases ran work with ⟨final, sized, swept, read⟩
  refine ⟨final, sized, ?_⟩
  simp only [swept, read, ok_bind]
  rfl

theorem forwardAd {result : Derivatives α} (shaped : Shaped tape.inputs point)
    (below : SlotsBelow tape.numSlots tape.inputs) (seedsShaped : ∀ seed ∈ seeds, Shaped tape.inputs seed)
    (ran : ∀ work : Vector α tape.numSlots, ∃ final : Array α, final.size = tape.numSlots ∧
      tape.forward algebra (place (seedSlots tape.inputs point) work.toArray) seeds =
        .ok (final, result)) :
    Answers tape options algebra one (Session.forwardAd point seeds) result :=
  get_bind fun _ => (lift (checkSeeds_of_shaped seedsShaped)).bind (load_onWork shaped below ran)

theorem reverseAd {result : Derivatives α} (shaped : Shaped tape.inputs point)
    (below : SlotsBelow tape.numSlots tape.inputs) (seedsShaped : ∀ seed ∈ seeds, Shaped tape.outputs seed)
    (ran : ∀ work : Vector α tape.numSlots, ∃ final : Array α, final.size = tape.numSlots ∧
      tape.reverse algebra (place (seedSlots tape.inputs point) work.toArray) seeds =
        .ok (final, result)) :
    Answers tape options algebra one (Session.reverseAd point seeds) result :=
  get_bind fun _ => (lift (checkSeeds_of_shaped seedsShaped)).bind (load_onWork shaped below ran)

end Answers

end Session

end Autodiff
