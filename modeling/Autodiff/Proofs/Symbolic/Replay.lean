import Autodiff.Proofs.Lowering.Stability
import Autodiff.Proofs.Symbolic.Evaluation
import Autodiff.Proofs.Symbolic.Operations

/-!
# Symbolic sweeps can be replayed

A call that is repeated asks the same questions and gets the same answers, because a graph that has developed
still answers what it answered before, and the nodes that the first call added are found in the table. So it
returns the same handles and adds nothing. A call that failed has added nodes up to the question that failed;
repeated at once, it finds these nodes and asks that question of the same graph again. Both are read off the
parts of a call (`GraphM.Replays`).
-/

namespace Autodiff

namespace GraphM

variable {α β : Type}

/-- After a call that succeeded, the call gives the same result in every later graph and adds nothing to it.
After a call that failed, it fails in the same way. -/
structure Replays (call : GraphM α) : Prop where
  develops : ∀ ⦃graph after : Graph⦄ ⦃result : Except Error α⦄, call.run.run graph = (result, after) →
    graph.Develops after
  again : ∀ ⦃graph after : Graph⦄ ⦃value : α⦄, call.run.run graph = (.ok value, after) →
    ∀ ⦃later : Graph⦄, after.Develops later → call.run.run later = (.ok value, later)
  failsAgain : ∀ ⦃graph after : Graph⦄ ⦃cause : Error⦄, call.run.run graph = (.error cause, after) →
    call.run.run after = (.error cause, after)

namespace Replays

theorem of_question {call : GraphM α} (question : Graph → Except Error α)
    (asks : ∀ graph, call.run.run graph = (question graph, graph))
    (stays : ∀ ⦃before after : Graph⦄ ⦃value : α⦄, before.Develops after → question before = .ok value →
      question after = .ok value) : Replays call where
  develops graph after result ran := by
    rw [asks, Prod.mk.injEq] at ran
    exact ran.2 ▸ .refl graph
  again graph after value ran later develops := by
    rw [asks, Prod.mk.injEq] at ran
    rw [asks, stays develops (ran.2 ▸ ran.1)]
  failsAgain graph after cause ran := by
    rw [asks, Prod.mk.injEq] at ran
    rw [asks, ← ran.2, ran.1]

theorem bind {first : GraphM α} {next : α → GraphM β} (start : Replays first)
    (continued : ∀ value, Replays (next value)) : Replays (first >>= next) where
  develops graph after result ran := by
    rcases run_bind_cases ran with ⟨cause, failed, _⟩ | ⟨middle, between, firstRan, nextRan⟩
    · exact start.develops failed
    · exact (start.develops firstRan).trans ((continued middle).develops nextRan)
  again graph after value ran later develops := by
    rcases run_bind_cases ran with ⟨cause, _, isError⟩ | ⟨middle, between, firstRan, nextRan⟩
    · cases isError
    · have laterRan := start.again firstRan (((continued middle).develops nextRan).trans develops)
      rw [run_bind_of_ok laterRan]
      exact (continued middle).again nextRan develops
  failsAgain graph after cause ran := by
    rcases run_bind_cases ran with ⟨cause', failed, isError⟩ | ⟨middle, between, firstRan, nextRan⟩
    · cases isError
      exact run_bind_of_error (start.failsAgain failed) next
    · rw [run_bind_of_ok (start.again firstRan ((continued middle).develops nextRan))]
      exact (continued middle).failsAgain nextRan

theorem add (node : Node) : Replays (add node) := by
  have fails : ∀ {graph : Graph} {cause : Error}, graph.derive node = .error cause →
      (GraphM.add node).run.run graph = (.error cause, graph) := by
    intro graph cause failed
    have looked : (do (← get).derive node : GraphM Pattern).run.run graph = (.error cause, graph) := by
      change (liftM (graph.derive node) : GraphM Pattern).run.run graph = _
      rw [failed]
      rfl
    exact run_bind_of_error looked _
  constructor
  · intro graph after result ran
    cases derived : graph.derive node with
    | ok pattern =>
        cases (run_add derived).symm.trans ran
        exact .insert graph node pattern
    | error cause =>
        cases (fails derived).symm.trans ran
        exact .refl graph
  · intro graph after value ran later develops
    cases derived : graph.derive node with
    | ok pattern =>
        cases (run_add derived).symm.trans ran
        have grown := (Graph.Develops.insert graph node pattern).trans develops
        have isInterned := develops.interned (Graph.Develops.interned_insert graph node pattern)
        have unchanged : later.insert node pattern = ((graph.insert node pattern).1, later) := by
          rw [Graph.insert, isInterned]
        rw [run_add (grown.nodes.derive derived), unchanged]
    | error cause => cases (fails derived).symm.trans ran
  · intro graph after cause ran
    cases derived : graph.derive node with
    | ok pattern => cases (run_add derived).symm.trans ran
    | error cause' =>
        cases (fails derived).symm.trans ran
        exact fails derived

end Replays

/-- All that a sweep does is to ask questions whose answers stay and to add nodes. -/
theorem symbolicLogic_replays : SymbolicLogic Replays where
  pure value := .of_question (fun _ => .ok value) (fun _ => rfl) fun _ _ _ _ same => same
  throw cause := .of_question (fun _ => .error cause) (fun _ => rfl) fun _ _ _ _ same => same
  lift computed := .of_question (fun _ => computed) (run_lift computed) fun _ _ _ _ same => same
  bind := .bind
  check handle := .of_question (·.check handle) (fun graph => run_lift _ graph) fun _ _ _ develops => develops.check
  pattern handle := .of_question (·.pattern handle) (fun graph => run_lift _ graph) fun _ _ _ develops =>
    develops.pattern
  add _ := .add _
  literal? handle := .of_question (·.literal? handle) (fun graph => run_lift _ graph) fun _ _ _ develops =>
    develops.literal?
  negated? handle := by
    refine .of_question (fun graph => do return (← graph.entry handle).node.negated?) (fun graph => ?_)
      fun before after value develops answer => ?_
    · have asked : (do (← get).entry handle : GraphM Entry).run.run graph = (graph.entry handle, graph) :=
        run_lift _ graph
      cases found : graph.entry handle with
      | error cause => exact run_bind_of_error (asked.trans (by rw [found])) _
      | ok entry =>
          refine (run_bind_of_ok (asked.trans (by rw [found])) _).trans ?_
          rcases entry with ⟨node, pattern, references⟩
          cases node with
          | unary op operand => cases op <;> rfl
          | _ => rfl
    · rcases bind_eq_ok.mp answer with ⟨entry, isEntry, answered⟩
      rcases develops.entry isEntry with ⟨later, isLater, sameNode, _⟩
      exact bind_eq_ok.mpr ⟨later, isLater, sameNode ▸ answered⟩
  isZero handle := .of_question (·.isLiteral handle 0) (fun graph => run_lift _ graph) fun _ _ _ develops =>
    develops.isLiteral
  lowered inputs output :=
    .of_question (·.build {} inputs [output]) (fun graph => run_lift _ graph) fun _ _ _ develops => develops.build_eq_ok

end GraphM

namespace Graph

/-- A symbolic sweep can be replayed. Repeated at once, it returns the same handles or the same error and leaves the
graph as it is. If it succeeded, this stays so whatever is done with the graph in between. -/
theorem Evolves.sweep_replays {graph : Graph} (evolves : initial.Evolves graph) {α : Type} {call : GraphM α}
    (sweeps : call.Sweeps) {result : Except Error α} {after : Graph} (ran : call.run.run graph = (result, after)) :
    call.run.run after = (result, after) ∧
      ∀ value, result = .ok value → ∀ later, after.Evolves later → call.run.run later = (.ok value, later) := by
  have replays : call.Replays := sweeps.obeys GraphM.symbolicLogic_replays
  have tidy : after.Tidy := by
    have kept := sweeps.obeys (symbolicLogic_keeps lasts_tidy)
      (evolves.of_lasts lasts_tidy (lasts_tidy.initial tidy_empty))
    rwa [GraphM.graphAfter, ran] at kept
  constructor
  · cases result with
    | ok value => exact replays.again ran (.refl after)
    | error cause => exact replays.failsAgain ran
  · rintro value rfl later evolvesOn
    exact replays.again ran (evolvesOn.of_lasts (lasts_develops after) ⟨tidy, .refl after⟩).2

/-- A product of two symbols adds one node; it is returned again at once and after one more symbol. -/
theorem product_replays : ∃ after : Graph,
    (product.evalSymbolic [[⟨3⟩], [⟨4⟩]] : GraphM _).run.run symbolPair = (.ok [[⟨5⟩]], after) ∧ after.size = 6 ∧
    (product.evalSymbolic [[⟨3⟩], [⟨4⟩]] : GraphM _).run.run after = (.ok [[⟨5⟩]], after) ∧
    (product.evalSymbolic [[⟨3⟩], [⟨4⟩]] : GraphM _).run.run ((GraphM.scalarSymbol "z").graphAfter after) =
      (.ok [[⟨5⟩]], (GraphM.scalarSymbol "z").graphAfter after) := by
  rcases initial_eq with ⟨zero, one, two, interned, same, absent⟩
  have start : symbolPair = ⟨#[⟨.constant zero, .scalar, 0⟩, ⟨.constant one, .scalar, 0⟩, ⟨.constant two, .scalar, 0⟩,
      ⟨.symbol 0, .scalar, 0⟩, ⟨.symbol 1, .scalar, 0⟩], interned, #["x", "y"]⟩ := by
    rw [symbolPair, same]
    rfl
  have inserted : (symbolPair.insert (.binary .mul ⟨3⟩ ⟨4⟩) .scalar).1 = ⟨5⟩ ∧
      (symbolPair.insert (.binary .mul ⟨3⟩ ⟨4⟩) .scalar).2.size = 6 := by
    have isNew : symbolPair.interned[Node.binary .mul ⟨3⟩ ⟨4⟩]? = none := by
      rw [start]
      exact absent _ (by decide)
    rw [Graph.insert, isNew, start]
    exact ⟨rfl, rfl⟩
  have ran : (product.evalSymbolic [[⟨3⟩], [⟨4⟩]] : GraphM _).run.run symbolPair =
      (.ok [[(symbolPair.insert (.binary .mul ⟨3⟩ ⟨4⟩) .scalar).1]],
        (symbolPair.insert (.binary .mul ⟨3⟩ ⟨4⟩) .scalar).2) := by
    rw [start]
    rfl
  rw [inserted.1] at ran
  have evolves : initial.Evolves symbolPair :=
    .after (.after .refl (.construct (.scalarSymbol ..))) (.construct (.scalarSymbol ..))
  have replays := evolves.sweep_replays (.evalSymbolic ..) ran
  exact ⟨_, ran, inserted.2, replays.1, replays.2 _ rfl _ (.after .refl (.construct (.scalarSymbol ..)))⟩

end Graph

end Autodiff
