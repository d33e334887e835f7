import Autodiff.Proofs.Graph.Denotation

/-!
# Growing graphs

Graphs only grow: every node keeps its handle, its operation and its pattern. What a node denotes is
therefore settled once it is in the graph. A graph is sound if it is well formed, if the table of interned
nodes leads to nodes that are there, with the patterns that are derived for them, and if the three constants
have their fixed handles. Adding a node to a sound graph then always leads to a handle of this node
(`Sound.insert`), whether the node was there before or not.
-/

namespace Autodiff

variable {handle : Handle} {node : Node}

namespace Graph

theorem HasNode.unique {graph : Graph} {first second : Node} {pattern pattern' : Pattern}
    (hasFirst : graph.HasNode handle first pattern) (hasSecond : graph.HasNode handle second pattern') :
    first = second ∧ pattern = pattern' := by
  rcases hasFirst with ⟨entry, found, rfl, rfl⟩
  rcases hasSecond with ⟨other, isOther, rfl, rfl⟩
  rw [found] at isOther
  cases isOther
  exact ⟨rfl, rfl⟩

theorem HasNode.check_eq {graph : Graph} {pattern : Pattern} (hasNode : graph.HasNode handle node pattern) :
    graph.check handle = .ok () := by
  rcases hasNode with ⟨entry, found, _⟩
  have inside := (Array.getElem?_eq_some_iff.mp found).1
  simp [Graph.check, Graph.contains, Graph.size, inside]

def Extends (before after : Graph) : Prop :=
  ∀ ⦃handle node pattern⦄, before.HasNode handle node pattern → after.HasNode handle node pattern

namespace Extends

variable {before between after : Graph}

theorem refl (graph : Graph) : graph.Extends graph :=
  fun _ _ _ hasNode => hasNode

theorem trans (first : before.Extends between) (second : between.Extends after) :
    before.Extends after :=
  fun _ _ _ hasNode => second (first hasNode)

theorem pattern (grows : before.Extends after) {known : Pattern} (found : before.pattern handle = .ok known) :
    after.pattern handle = .ok known := by
  rcases exists_hasNode found with ⟨node, hasNode⟩
  exact (grows hasNode).pattern_eq

theorem derive (grows : before.Extends after) {pattern : Pattern} (derived : before.derive node = .ok pattern) :
    after.derive node = .ok pattern := by
  cases node with
  | symbol index => cases derived
  | constant literal => exact derived
  | zeros nrow ncol => exact derived
  | unary op operand =>
      rcases bind_eq_ok.mp derived with ⟨inner, found, rest⟩
      exact bind_eq_ok.mpr ⟨inner, grows.pattern found, rest⟩
  | binary op lhs rhs =>
      rcases bind_eq_ok.mp derived with ⟨left, leftFound, derived⟩
      rcases bind_eq_ok.mp derived with ⟨right, rightFound, rest⟩
      exact bind_eq_ok.mpr ⟨left, grows.pattern leftFound,
        bind_eq_ok.mpr ⟨right, grows.pattern rightFound, rest⟩⟩
  | concat kind parts =>
      rcases bind_eq_ok.mp derived with ⟨patterns, found, rest⟩
      refine bind_eq_ok.mpr ⟨patterns, mapM_eq_ok.mpr ?_, rest⟩
      exact (mapM_eq_ok.mp found).imp fun part pattern isKnown => grows.pattern isKnown
  | transpose operand =>
      rcases bind_eq_ok.mp derived with ⟨inner, found, rest⟩
      exact bind_eq_ok.mpr ⟨inner, grows.pattern found, rest⟩
  | nonzero operand index =>
      rcases bind_eq_ok.mp derived with ⟨inner, found, rest⟩
      exact bind_eq_ok.mpr ⟨inner, grows.pattern found, rest⟩

end Extends

/-! ## Appending -/

theorem hasNode_of_entries {before after : Graph} (same : after.entries = before.entries) {pattern : Pattern} :
    after.HasNode handle node pattern ↔ before.HasNode handle node pattern := by
  simp [HasNode, same]

theorem extends_append (graph : Graph) (node : Node) (pattern : Pattern) :
    graph.Extends (graph.append node pattern).2 :=
  fun _ _ _ hasNode => hasNode.append node pattern

theorem hasNode_append (graph : Graph) (node : Node) (pattern : Pattern) :
    (graph.append node pattern).2.HasNode (graph.append node pattern).1 node pattern := by
  refine ⟨⟨node, pattern, 0⟩, ?_, rfl, rfl⟩
  have last := size_addReferences graph.entries node.operands.eraseDups
  simp only [append, size, ← last, Array.getElem?_push_size]

theorem extends_insert (graph : Graph) (node : Node) (pattern : Pattern) :
    graph.Extends (graph.insert node pattern).2 := by
  rw [insert]
  split
  · exact .refl graph
  · exact extends_append graph node pattern

theorem extends_appendSymbol (graph : Graph) (name : String) (pattern : Pattern) :
    graph.Extends (graph.appendSymbol name pattern).2 :=
  extends_append { graph with symbolNames := graph.symbolNames.push name } _ pattern

/-! ## Sound graphs -/

/-- Interned nodes are where the table says, with the patterns that are derived for them. -/
def Interned (graph : Graph) : Prop :=
  ∀ ⦃node handle⦄, graph.interned[node]? = some handle →
    ∃ pattern, graph.HasNode handle node pattern ∧ graph.derive node = .ok pattern

/-- What makes a graph fit for adding nodes. -/
structure Sound (graph : Graph) : Prop where
  wellFormed : graph.WellFormed
  interned : graph.Interned
  zero : graph.HasNode .zero (.constant 0) .scalar
  one : graph.HasNode .one (.constant 1) .scalar
  two : graph.HasNode .two (.constant 2) .scalar

theorem Interned.grow {before after : Graph} (interned : before.Interned)
    (grows : before.Extends after) (same : after.interned = before.interned) : after.Interned := by
  intro node handle isInterned
  rw [same] at isInterned
  rcases interned isInterned with ⟨pattern, hasNode, derived⟩
  exact ⟨pattern, grows hasNode, grows.derive derived⟩

theorem Interned.hasNode_insert {graph : Graph} (interned : graph.Interned) {pattern : Pattern}
    (derived : graph.derive node = .ok pattern) :
    (graph.insert node pattern).2.HasNode (graph.insert node pattern).1 node pattern := by
  rw [insert]
  split
  · rename_i handle isInterned
    rcases interned isInterned with ⟨known, hasNode, knownDerived⟩
    rw [derived] at knownDerived
    cases knownDerived
    exact hasNode
  · exact hasNode_append graph node pattern

theorem Interned.insert {graph : Graph} (interned : graph.Interned) {pattern : Pattern}
    (derived : graph.derive node = .ok pattern) : (graph.insert node pattern).2.Interned := by
  have grows := graph.extends_insert node pattern
  have inserted := interned.hasNode_insert derived
  intro other handle isInterned
  by_cases same : node = other
  · -- The table leads to the handle that `insert` returned.
    subst same
    have isFirst : (graph.insert node pattern).1 = handle := by
      rw [Graph.insert] at isInterned ⊢
      split at isInterned <;> simp_all
    exact ⟨pattern, isFirst ▸ inserted, grows.derive derived⟩
  · have before : graph.interned[other]? = some handle := by
      rw [Graph.insert] at isInterned
      split at isInterned
      · exact isInterned
      · simpa [append, Std.HashMap.getElem?_insert, same] using isInterned
    rcases interned before with ⟨known, hasNode, knownDerived⟩
    exact ⟨known, grows hasNode, grows.derive knownDerived⟩

theorem lasts_interned : Lasts Interned where
  insert _ _ _ interned derived _ := interned.insert derived
  symbol graph name pattern interned _ :=
    interned.grow (graph.extends_appendSymbol name pattern) rfl

theorem lasts_hasNode (handle : Handle) (node : Node) (pattern : Pattern) :
    Lasts fun graph => graph.HasNode handle node pattern where
  insert graph newNode newPattern hasNode _ _ := graph.extends_insert newNode newPattern hasNode
  symbol graph name newPattern hasNode _ := graph.extends_appendSymbol name newPattern hasNode

theorem Sound.insert {graph : Graph} (sound : graph.Sound) {pattern : Pattern}
    (derived : graph.derive node = .ok pattern) : (graph.insert node pattern).2.Sound :=
  ⟨sound.wellFormed.insert (derived_of_derive derived), sound.interned.insert derived,
    graph.extends_insert node pattern sound.zero, graph.extends_insert node pattern sound.one,
    graph.extends_insert node pattern sound.two⟩

theorem lasts_sound : Lasts Sound where
  insert _ _ _ sound derived _ := sound.insert derived
  symbol _ name _ sound wellFormed :=
    ⟨lasts_wellFormed.symbol name sound.wellFormed wellFormed,
      lasts_interned.symbol name sound.interned wellFormed,
      (lasts_hasNode ..).symbol name sound.zero wellFormed,
      (lasts_hasNode ..).symbol name sound.one wellFormed,
      (lasts_hasNode ..).symbol name sound.two wellFormed⟩

theorem entries_initial : initial.entries =
    #[⟨.constant 0, .scalar, 0⟩, ⟨.constant 1, .scalar, 0⟩, ⟨.constant 2, .scalar, 0⟩] := by
  have zeroOne : (0 : Float) ≠ 1 := by decide
  have zeroTwo : (0 : Float) ≠ 2 := by decide
  have oneTwo : (1 : Float) ≠ 2 := by decide
  have zeroEq : (0.0 : Float) = 0 := by decide
  have oneEq : (1.0 : Float) = 1 := by decide
  have twoEq : (2.0 : Float) = 2 := by decide
  simp [initial, insert, append, addReferences, Node.operands, zeroEq, oneEq, twoEq, zeroOne,
    zeroTwo, oneTwo]

theorem sound_initial : initial.Sound := by
  have interned : initial.Interned := by
    apply lasts_interned.initial
    intro node handle isInterned
    simp at isInterned
  exact ⟨wellFormed_initial, interned, ⟨_, by rw [entries_initial]; rfl, rfl, rfl⟩,
    ⟨_, by rw [entries_initial]; rfl, rfl, rfl⟩, ⟨_, by rw [entries_initial]; rfl, rfl, rfl⟩⟩

theorem Reachable.sound {graph : Graph} (reachable : graph.Reachable) : graph.Sound :=
  reachable.of_lasts lasts_sound sound_initial

/-! ## Denotations stay -/

variable {K : Type} [Zero K]

theorem denoteNode_extends {before after : Graph} (grows : before.Extends after) {meaning : Meaning K}
    {ownMatrix : Dense K} {matrices : Handle → Dense K}
    (known : ∀ operand ∈ node.operands, ∃ pattern, before.pattern operand = .ok pattern) :
    after.denoteNode meaning ownMatrix matrices node =
      before.denoteNode meaning ownMatrix matrices node := by
  cases node with
  | nonzero operand index =>
      rcases known operand (by simp [Node.operands]) with ⟨pattern, isKnown⟩
      rcases pattern_eq_ok.mp isKnown with ⟨entry, found, samePattern⟩
      rcases pattern_eq_ok.mp (grows.pattern isKnown) with ⟨later, laterFound, laterPattern⟩
      simp only [denoteNode, entry?, found, laterFound, Option.bind_some, samePattern, laterPattern]
  | symbol | constant | zeros | unary | binary | concat | transpose => rfl

/-- What a node denotes is settled once it is in the graph. -/
theorem Sound.denote_extends {before after : Graph} (sound : before.Sound) (afterSound : after.Sound)
    (grows : before.Extends after) (meaning : Meaning K) (assignment : Handle → List K) {pattern : Pattern}
    (known : before.pattern handle = .ok pattern) :
    after.denote meaning assignment handle = before.denote meaning assignment handle := by
  refine sound.wellFormed.induction (fun handle entry found ih => ?_) known
  rcases grows ⟨entry, found, rfl, rfl⟩ with ⟨later, laterFound, laterNode, laterPattern⟩
  have operandKnown : ∀ operand ∈ entry.node.operands, ∃ known, before.pattern operand = .ok known :=
    fun _ member => (sound.wellFormed found).operand_found member
  rw [sound.wellFormed.denote_eq meaning assignment found,
    afterSound.wellFormed.denote_eq meaning assignment laterFound, laterNode, laterPattern,
    denoteNode_extends grows operandKnown]
  apply denoteNode_congr
  intro operand member
  rcases operandKnown operand member with ⟨known, isKnown⟩
  exact ih member isKnown

end Graph

/-! ## Running calls -/

namespace GraphM

variable {α β : Type} {graph between : Graph}

theorem run_bind_of_ok {first : GraphM α} {value : α}
    (ran : first.run.run graph = (.ok value, between)) (next : α → GraphM β) :
    (first >>= next).run.run graph = (next value).run.run between := by
  rw [ExceptT.run_bind, StateT.run_bind, ran]
  rfl

theorem run_bind_of_error {first : GraphM α} {cause : Error}
    (ran : first.run.run graph = (.error cause, between)) (next : α → GraphM β) :
    (first >>= next).run.run graph = (.error cause, between) := by
  rw [ExceptT.run_bind, StateT.run_bind, ran]
  rfl

theorem run_bind_cases {first : GraphM α} {next : α → GraphM β} {after : Graph} {result : Except Error β}
    (ran : (first >>= next).run.run graph = (result, after)) :
    (∃ cause, first.run.run graph = (.error cause, after) ∧ result = .error cause) ∨
      ∃ value between, first.run.run graph = (.ok value, between) ∧
        (next value).run.run between = (result, after) := by
  rcases firstRan : first.run.run graph with ⟨cause | value, between⟩
  · cases (run_bind_of_error firstRan next).symm.trans ran
    exact .inl ⟨cause, rfl, rfl⟩
  · exact .inr ⟨value, between, rfl, (run_bind_of_ok firstRan next).symm.trans ran⟩

theorem run_lift (computed : Except Error α) (graph : Graph) :
    (liftM computed : GraphM α).run.run graph = (computed, graph) := by
  cases computed <;> rfl

theorem run_lift_of_ok {computed : Except Error α} {value : α} (succeeds : computed = .ok value)
    (graph : Graph) : (liftM computed : GraphM α).run.run graph = (.ok value, graph) := by
  rw [run_lift, succeeds]

theorem run_pattern {pattern : Pattern} (known : graph.pattern handle = .ok pattern) :
    (GraphM.pattern handle).run.run graph = (.ok pattern, graph) :=
  run_lift_of_ok known graph

theorem run_check {pattern : Pattern} (known : graph.pattern handle = .ok pattern) :
    (GraphM.check handle).run.run graph = (.ok (), graph) := by
  rcases Graph.exists_hasNode known with ⟨node, hasNode⟩
  exact run_lift_of_ok hasNode.check_eq graph

theorem run_add {pattern : Pattern} (derived : graph.derive node = .ok pattern) :
    (GraphM.add node).run.run graph =
      (.ok (graph.insert node pattern).1, (graph.insert node pattern).2) := by
  have found : (do (← get).derive node : GraphM Pattern).run.run graph = (.ok pattern, graph) :=
    run_lift_of_ok derived graph
  exact run_bind_of_ok found _

end GraphM

end Autodiff
