import Autodiff.Proofs.Graph.Growth
import Autodiff.Symbolic.Algebra

/-!
# Traced computations

Literals are numbers of the machine, so a folded literal is exact only if nothing was rounded. Whether it
was is a question about the foldings that a computation makes, one by one. `TracedM` is the monad of graph
operations that also writes them down; every symbolic computation runs in it as it does in `GraphM`.

The judgement `Completes` is about both runs at once: they succeed with the same value in the same graph,
and what has been proved about a world stays true in every later one.
-/

namespace Autodiff

/-- An operation that was applied to literals; a unary operation does not read the second one. -/
structure Folding where
  op : Opcode
  left : Float
  right : Float

/-- A graph together with the foldings made so far. -/
structure Workspace where
  graph : Graph
  foldings : List Folding

/-- Graph operations that write down the foldings they make. -/
abbrev TracedM := ExceptT Error (StateM Workspace)

instance : MonadLift GraphM TracedM where
  monadLift call := fun workspace =>
    let (outcome, graph) := call.run.run workspace.graph
    (outcome, { workspace with graph })

instance : MonadFold TracedM where
  fold op left right := do
    modifyThe Workspace fun workspace =>
      { workspace with foldings := ⟨op, left, right⟩ :: workspace.foldings }
    op.apply left right

def TracedM.foldings {α : Type} (call : TracedM α) (graph : Graph) : List Folding :=
  (call.run.run ⟨graph, []⟩).2.foldings

theorem TracedM.continues {α β : Type} {first : TracedM α} {next : α → TracedM β} {value : α}
    {before between : Workspace} (ran : first.run.run before = (.ok value, between)) :
    (first >>= next).run.run before = (next value).run.run between := by
  rw [ExceptT.run_bind, StateT.run_bind, ran]
  rfl

theorem TracedM.run_add {graph : Graph} {node : Node} {pattern : Pattern} {handle : Handle}
    (derived : graph.derive node = .ok pattern) (found : graph.interned[node]? = some handle)
    (foldings : List Folding) :
    (liftM (GraphM.add node) : TracedM Handle).run.run ⟨graph, foldings⟩ = (.ok handle, ⟨graph, foldings⟩) := by
  change (((GraphM.add node).run.run graph).1, Workspace.mk ((GraphM.add node).run.run graph).2 foldings) = _
  rw [GraphM.run_add derived, Graph.insert, found]

/-- A folded literal means the operation applied to what the literals mean. -/
def Meaning.Folds {K : Type} (meaning : Meaning K) (folding : Folding) : Prop :=
  match folding.op with
  | .const => True
  | .unary op => meaning.literal (op.apply folding.left) = meaning.unary op (meaning.literal folding.left)
  | .binary op => meaning.literal (op.apply folding.left folding.right) =
      meaning.binary op (meaning.literal folding.left) (meaning.literal folding.right)

/-! ## Worlds -/

/-- A workspace with a sound graph. -/
structure World extends Workspace where
  sound : graph.Sound

namespace World

instance : Preorder World where
  le before after := before.graph.Extends after.graph ∧ before.foldings ⊆ after.foldings
  le_refl world := ⟨.refl world.graph, List.Subset.refl _⟩
  le_trans _ _ _ first second := ⟨first.1.trans second.1, List.Subset.trans first.2 second.2⟩

def Stays (property : World → Prop) : Prop :=
  ∀ ⦃before after : World⦄, before ≤ after → property before → property after

end World

/-! ## Computations that complete -/

/-- A computation, traced and plain, succeeds: in both runs with the same value and in the same graph. It
leads to a later world in which the value has a given property. -/
def Completes {α : Type} (start : World) (traced : TracedM α) (plain : GraphM α)
    (property : World → α → Prop) : Prop :=
  ∃ (value : α) (final : World), traced.run.run start.toWorkspace = (.ok value, final.toWorkspace) ∧
    plain.run.run start.graph = (.ok value, final.graph) ∧ start ≤ final ∧ property final value

namespace Completes

variable {α β : Type} {start : World}

theorem pure {value : α} {property : World → α → Prop} (holds : property start value) :
    Completes start (pure value) (pure value) property :=
  ⟨value, start, rfl, rfl, le_refl start, holds⟩

theorem bind {traced : TracedM α} {plain : GraphM α} {tracedNext : α → TracedM β}
    {plainNext : α → GraphM β} {between : World → α → Prop} {property : World → β → Prop}
    (first : Completes start traced plain between)
    (next : ∀ (world : World) (value : α), start ≤ world → between world value →
      Completes world (tracedNext value) (plainNext value) property) :
    Completes start (traced >>= tracedNext) (plain >>= plainNext) property := by
  rcases first with ⟨value, middle, tracedRan, plainRan, grows, holds⟩
  rcases next middle value grows holds with
    ⟨result, final, tracedNextRan, plainNextRan, growsOn, resultHolds⟩
  refine ⟨result, final, ?_, ?_, grows.trans growsOn, resultHolds⟩
  · rw [ExceptT.run_bind, StateT.run_bind, tracedRan]
    exact tracedNextRan
  · rw [ExceptT.run_bind, StateT.run_bind, plainRan]
    exact plainNextRan

theorem mono {traced : TracedM α} {plain : GraphM α} {weaker stronger : World → α → Prop}
    (completes : Completes start traced plain stronger)
    (implies : ∀ (world : World) (value : α), start ≤ world → stronger world value →
      weaker world value) : Completes start traced plain weaker := by
  rcases completes with ⟨value, final, tracedRan, plainRan, grows, holds⟩
  exact ⟨value, final, tracedRan, plainRan, grows, implies final value grows holds⟩

/-- Both runs are determined, so what holds after each of several readings holds together. -/
theorem all {ι : Type} [Nonempty ι] {traced : TracedM α} {plain : GraphM α}
    {property : ι → World → α → Prop} (each : ∀ index, Completes start traced plain (property index)) :
    Completes start traced plain fun world value => ∀ index, property index world value := by
  rcases each (Classical.arbitrary ι) with ⟨value, final, tracedRan, plainRan, grows, _⟩
  refine ⟨value, final, tracedRan, plainRan, grows, fun index => ?_⟩
  rcases each index with ⟨sameValue, sameFinal, ranAgain, _, _, holds⟩
  rcases Prod.mk.inj (tracedRan.symm.trans ranAgain) with ⟨sameOutcome, sameWorkspace⟩
  cases Except.ok.inj sameOutcome
  cases final
  cases sameFinal
  cases sameWorkspace
  exact holds

theorem lift {call : GraphM α} {value : α} {graph : Graph} {property : World → α → Prop}
    (ran : call.run.run start.graph = (.ok value, graph)) (sound : graph.Sound)
    (grows : start.graph.Extends graph) (holds : property ⟨⟨graph, start.foldings⟩, sound⟩ value) :
    Completes start (liftM call) (liftM call) property := by
  refine ⟨value, ⟨⟨graph, start.foldings⟩, sound⟩, ?_, ran, ⟨grows, List.Subset.refl _⟩, holds⟩
  change ((call.run.run start.graph).1, Workspace.mk (call.run.run start.graph).2 start.foldings) = _
  rw [ran]

theorem query_bind {call : GraphM α} {value : α} {tracedNext : α → TracedM β}
    {plainNext : α → GraphM β} {property : World → β → Prop}
    (ran : call.run.run start.graph = (.ok value, start.graph))
    (next : Completes start (tracedNext value) (plainNext value) property) :
    Completes start (liftM call >>= tracedNext) (liftM call >>= plainNext) property := by
  have found : Completes start (liftM call) (liftM call) fun world result =>
      world = start ∧ result = value :=
    lift ran start.sound (.refl start.graph) ⟨rfl, rfl⟩
  apply found.bind
  rintro world result _ ⟨rfl, rfl⟩
  exact next

theorem liftExcept {computed : Except Error α} {value : α} {property : World → α → Prop}
    (succeeds : computed = .ok value) (holds : property start value) :
    Completes start (liftM computed) (liftM computed) property := by
  subst succeeds
  exact ⟨value, start, rfl, rfl, le_refl start, holds⟩

theorem liftExcept_bind {computed : Except Error α} {value : α} {tracedNext : α → TracedM β}
    {plainNext : α → GraphM β} {property : World → β → Prop} (succeeds : computed = .ok value)
    (next : Completes start (tracedNext value) (plainNext value) property) :
    Completes start (liftM computed >>= tracedNext) (liftM computed >>= plainNext) property := by
  have found : Completes start (liftM computed) (liftM computed) fun world result =>
      world = start ∧ result = value := liftExcept succeeds ⟨rfl, rfl⟩
  apply found.bind
  rintro world result _ ⟨rfl, rfl⟩
  exact next

theorem fold {op : Opcode} {left right value : Float} {property : World → Float → Prop}
    (computed : op.apply left right = .ok value)
    (holds : property ⟨⟨start.graph, ⟨op, left, right⟩ :: start.foldings⟩, start.sound⟩ value) :
    Completes start (MonadFold.fold op left right) (MonadFold.fold op left right) property := by
  refine ⟨value, ⟨⟨start.graph, ⟨op, left, right⟩ :: start.foldings⟩, start.sound⟩, ?_, ?_,
    ⟨.refl start.graph, List.subset_cons_self _ _⟩, holds⟩
  · change (do
      modifyThe Workspace fun workspace =>
        { workspace with foldings := ⟨op, left, right⟩ :: workspace.foldings }
      liftM (op.apply left right) : TracedM Float).run.run start.toWorkspace = _
    rw [computed]
    rfl
  · change (liftM (op.apply left right) : GraphM Float).run.run start.graph = _
    rw [computed]
    rfl

/-- A list of computations completes if each does, whatever the others have added before. -/
theorem mapM {γ : Type} {traced : α → TracedM β} {plain : α → GraphM β} {elements : List α}
    {references : List γ} {before : World → α → γ → Prop} {after : World → β → γ → Prop}
    (related : List.Forall₂ (before start) elements references)
    (beforeStays : ∀ element reference, World.Stays fun world => before world element reference)
    (afterStays : ∀ result reference, World.Stays fun world => after world result reference)
    (each : ∀ (world : World) (element : α) (reference : γ), start ≤ world →
      before world element reference → Completes world (traced element) (plain element)
        fun world result => after world result reference) :
    Completes start (elements.mapM traced) (elements.mapM plain)
      fun world results => List.Forall₂ (after world) results references := by
  induction elements generalizing start references with
  | nil =>
      cases related
      exact .pure .nil
  | cons element elements ih =>
      rcases List.forall₂_cons_left_iff.mp related with ⟨reference, rest, head, tail, rfl⟩
      rw [List.mapM_cons, List.mapM_cons]
      apply (each start element reference (le_refl start) head).bind
      intro world result grows resultHolds
      have tailLater := tail.imp fun element reference => @beforeStays element reference _ _ grows
      apply (ih tailLater fun later element reference growsOn =>
        each later element reference (grows.trans growsOn)).bind
      intro later results growsOn resultsHold
      exact .pure (.cons (afterStays result reference growsOn resultHolds) resultsHold)

theorem mapM_each {traced : α → TracedM β} {plain : α → GraphM β} {elements : List α}
    {after : World → β → α → Prop}
    (afterStays : ∀ result element, World.Stays fun world => after world result element)
    (each : ∀ (world : World), start ≤ world → ∀ element ∈ elements,
      Completes world (traced element) (plain element) fun world result => after world result element) :
    Completes start (elements.mapM traced) (elements.mapM plain)
      fun world results => List.Forall₂ (after world) results elements := by
  let before : World → α → α → Prop := fun _ element reference => element = reference ∧ element ∈ elements
  have related : List.Forall₂ (before start) elements elements :=
    List.forall₂_same.mpr fun element member => ⟨rfl, member⟩
  apply mapM related (fun _ _ _ _ _ holds => holds) afterStays
  rintro world element _ grows ⟨rfl, member⟩
  exact each world grows element member

end Completes

/-! ## Graph operations -/

namespace TracedM

variable {α β : Type}

theorem run_liftM (call : GraphM α) (workspace : Workspace) :
    (liftM call : TracedM α).run.run workspace =
      ((call.run.run workspace.graph).1, ⟨(call.run.run workspace.graph).2, workspace.foldings⟩) :=
  rfl

theorem liftM_bind (call : GraphM α) (next : α → GraphM β) :
    (liftM (call >>= next) : TracedM β) = liftM call >>= fun value => liftM (next value) := by
  refine ExceptT.ext (StateT.ext fun workspace => ?_)
  simp only [run_liftM, ExceptT.run_bind, StateT.run_bind]
  rcases call.run.run workspace.graph with ⟨_ | value, graph⟩ <;> rfl

theorem liftM_mapM (call : α → GraphM β) (elements : List α) :
    (liftM (elements.mapM call) : TracedM (List β)) = elements.mapM fun element => liftM (call element) := by
  induction elements with
  | nil => rfl
  | cons element elements ih =>
      simp only [List.mapM_cons, liftM_bind, ih]
      rfl

end TracedM

/-- A graph operation succeeds, as a step of any computation. -/
abbrev Succeeds {α : Type} (start : World) (call : GraphM α) (property : World → α → Prop) : Prop :=
  Completes start (liftM call) call property

namespace Succeeds

variable {α β : Type} {start : World}

theorem pure {value : α} {property : World → α → Prop} (holds : property start value) :
    Succeeds start (pure value) property :=
  Completes.pure holds

theorem bind {call : GraphM α} {next : α → GraphM β} {between : World → α → Prop}
    {property : World → β → Prop} (first : Succeeds start call between)
    (rest : ∀ (world : World) (value : α), start ≤ world → between world value →
      Succeeds world (next value) property) : Succeeds start (call >>= next) property := by
  rw [Succeeds, TracedM.liftM_bind]
  exact Completes.bind first rest

theorem completes_bind {call : GraphM α} {tracedNext : α → TracedM β} {plainNext : α → GraphM β}
    {between : World → α → Prop} {property : World → β → Prop} (first : Succeeds start call between)
    (next : ∀ (world : World) (value : α), start ≤ world → between world value →
      Completes world (tracedNext value) (plainNext value) property) :
    Completes start (liftM call >>= tracedNext) (liftM call >>= plainNext) property :=
  Completes.bind first next

theorem query_bind {call : GraphM α} {value : α} {next : α → GraphM β} {property : World → β → Prop}
    (ran : call.run.run start.graph = (.ok value, start.graph))
    (rest : Succeeds start (next value) property) : Succeeds start (call >>= next) property := by
  rw [Succeeds, TracedM.liftM_bind]
  exact Completes.query_bind ran rest

theorem mapM {γ : Type} {call : α → GraphM β} {elements : List α} {references : List γ}
    {before : World → α → γ → Prop} {after : World → β → γ → Prop}
    (related : List.Forall₂ (before start) elements references)
    (beforeStays : ∀ element reference, World.Stays fun world => before world element reference)
    (afterStays : ∀ result reference, World.Stays fun world => after world result reference)
    (each : ∀ (world : World) (element : α) (reference : γ), start ≤ world →
      before world element reference → Succeeds world (call element)
        fun world result => after world result reference) :
    Succeeds start (elements.mapM call)
      fun world results => List.Forall₂ (after world) results references := by
  rw [Succeeds, TracedM.liftM_mapM]
  exact Completes.mapM related beforeStays afterStays each

theorem mapM_each {call : α → GraphM β} {elements : List α} {after : World → β → α → Prop}
    (afterStays : ∀ result element, World.Stays fun world => after world result element)
    (each : ∀ (world : World), start ≤ world → ∀ element ∈ elements,
      Succeeds world (call element) fun world result => after world result element) :
    Succeeds start (elements.mapM call)
      fun world results => List.Forall₂ (after world) results elements := by
  rw [Succeeds, TracedM.liftM_mapM]
  exact Completes.mapM_each afterStays each

end Succeeds

end Autodiff
