import Autodiff.Proofs.Graph.Spelling
import Autodiff.Proofs.Symbolic.Tracing

/-!
# Reading 1x1 expressions as elements

A reading fixes what the opcodes mean, what the symbols stand for and which operations may be used. A handle
then denotes an element if it is a stored 1x1 expression over the vocabulary and its value is this element,
provided that all foldings made so far are exact. The shape of an expression and the operations in it do not
depend on that proviso, so everything about failures can be proved without it.

Adding a node that applies an operation to handles that denote elements leads to a handle that denotes the
operation applied to the elements (`denotes_unary`, `denotes_binary`).
-/

namespace Autodiff

namespace Graph

def value {K : Type} [Zero K] (graph : Graph) (meaning : Meaning K) (assignment : Handle → List K)
    (handle : Handle) : K :=
  (graph.denote meaning assignment handle).get 0 0

end Graph

/-! ## Readings -/

/-- What opcodes mean, what symbols stand for, and which of them may be used. -/
structure Reading (K : Type) where
  meaning : Meaning K
  assignment : Handle → List K
  vocabulary : Vocabulary

namespace Reading

variable {K : Type} [Zero K] (reading : Reading K)

/-- All foldings so far of operations that may be used are exact. -/
def Exact (world : World) : Prop :=
  ∀ folding ∈ world.foldings, reading.vocabulary.AllowsOp folding.op → reading.meaning.Folds folding

/-- A stored 1x1 expression over the vocabulary denotes an element. -/
structure Denotes (world : World) (handle : Handle) (element : K) : Prop where
  isScalar : world.graph.pattern handle = .ok .scalar
  spelled : world.graph.Spelled reading.vocabulary handle
  value_eq : reading.Exact world →
    world.graph.value reading.meaning reading.assignment handle = element

variable {reading} {world : World} {handle : Handle} {element : K}

omit [Zero K] in
theorem Exact.before {later : World} (exact : reading.Exact later) (grows : world ≤ later) :
    reading.Exact world :=
  fun folding member => exact folding (grows.2 member)

theorem Denotes.stays (handle : Handle) (element : K) :
    World.Stays fun world => reading.Denotes world handle element := by
  intro before after grows denotes
  refine ⟨grows.1.pattern denotes.isScalar, denotes.spelled.grow grows.1, fun exact => ?_⟩
  rw [Graph.value, before.sound.denote_extends after.sound grows.1 _ _ denotes.isScalar]
  exact denotes.value_eq (exact.before grows)

theorem Denotes.grow {later : World} (denotes : reading.Denotes world handle element)
    (grows : world ≤ later) : reading.Denotes later handle element :=
  stays handle element grows denotes

/-- Which element is denoted matters only if the foldings are exact. -/
theorem Denotes.congr {other : K} (denotes : reading.Denotes world handle element)
    (same : reading.Exact world → element = other) : reading.Denotes world handle other :=
  ⟨denotes.isScalar, denotes.spelled, fun exact => (denotes.value_eq exact).trans (same exact)⟩

theorem Denotes.exists_hasNode (denotes : reading.Denotes world handle element) :
    ∃ node, world.graph.HasNode handle node .scalar :=
  Graph.exists_hasNode denotes.isScalar

/-! ## One node -/

theorem value_eq_denoteNode {graph : Graph} (sound : graph.Sound) {node : Node} {pattern : Pattern}
    (hasNode : graph.HasNode handle node pattern) (meaning : Meaning K)
    (assignment : Handle → List K) :
    graph.value meaning assignment handle =
      (graph.denoteNode meaning (pattern.scatter (assignment handle))
        (graph.denote meaning assignment) node).get 0 0 := by
  rcases hasNode with ⟨entry, found, rfl, rfl⟩
  rw [Graph.value, sound.wellFormed.denote_eq meaning assignment found]

theorem isScalar_denote {graph : Graph} (sound : graph.Sound) (meaning : Meaning K)
    (assignment : Handle → List K) (known : graph.pattern handle = .ok .scalar) :
    (graph.denote meaning assignment handle).nrow = 1 ∧
      (graph.denote meaning assignment handle).ncol = 1 :=
  Prod.mk.inj (sound.wellFormed.shape_denote meaning assignment known)

theorem denotes_constant {literal : Float}
    (hasNode : world.graph.HasNode handle (.constant literal) .scalar) :
    reading.Denotes world handle (reading.meaning.literal literal) := by
  refine ⟨hasNode.pattern_eq, .intro hasNode trivial (by simp [Node.operands]), fun _ => ?_⟩
  rw [value_eq_denoteNode world.sound hasNode]
  rfl

theorem denotes_unary {op : UnaryOp} {operand : Handle} (allowed : reading.vocabulary.unary op)
    (denotes : reading.Denotes world operand element)
    (hasNode : world.graph.HasNode handle (.unary op operand) .scalar) :
    reading.Denotes world handle (reading.meaning.unary op element) := by
  refine ⟨hasNode.pattern_eq, .intro hasNode allowed ?_, fun exact => ?_⟩
  · simpa [Node.operands] using denotes.spelled
  · have inside := isScalar_denote world.sound reading.meaning reading.assignment denotes.isScalar
    rw [value_eq_denoteNode world.sound hasNode, Graph.denoteNode,
      Dense.get_map (by omega) (by omega), ← denotes.value_eq exact]
    rfl

theorem denotes_binary {op : BinaryOp} {lhs rhs : Handle} {left right : K}
    (allowed : reading.vocabulary.binary op) (leftDenotes : reading.Denotes world lhs left)
    (rightDenotes : reading.Denotes world rhs right)
    (hasNode : world.graph.HasNode handle (.binary op lhs rhs) .scalar) :
    reading.Denotes world handle (reading.meaning.binary op left right) := by
  refine ⟨hasNode.pattern_eq, .intro hasNode allowed ?_, fun exact => ?_⟩
  · simpa [Node.operands] using And.intro leftDenotes.spelled rightDenotes.spelled
  · have leftShape :=
      world.sound.wellFormed.shape_denote reading.meaning reading.assignment leftDenotes.isScalar
    have rightShape :=
      world.sound.wellFormed.shape_denote reading.meaning reading.assignment rightDenotes.isScalar
    have leftScalar := Dense.isScalar_of_shape leftShape
    have rightScalar := Dense.isScalar_of_shape rightShape
    rw [value_eq_denoteNode world.sound hasNode, Graph.denoteNode, Dense.zipWith, leftScalar,
      if_pos (by rfl : Pattern.scalar.isScalar = true), rightShape]
    refine (Dense.get_ofFn (by decide) (by decide)).trans ?_
    rw [Dense.spread, Dense.spread, leftScalar, rightScalar, ← leftDenotes.value_eq exact,
      ← rightDenotes.value_eq exact]
    rfl

/-! ## Adding a node -/

omit [Zero K] in
theorem completes_adding {call : GraphM Handle} {node : Node} {pattern : Pattern}
    (same : call.run.run world.graph = (GraphM.add node).run.run world.graph)
    (derived : world.graph.derive node = .ok pattern) :
    Completes world (liftM call) (liftM call)
      fun world handle => world.graph.HasNode handle node pattern := by
  have ran : call.run.run world.graph =
      (.ok (world.graph.insert node pattern).1, (world.graph.insert node pattern).2) :=
    same.trans (GraphM.run_add derived)
  exact .lift ran (world.sound.insert derived)
    (world.graph.extends_insert node pattern) (world.sound.interned.hasNode_insert derived)

/-- An operation on expressions, traced and plain, leads to one that denotes an element. -/
abbrev Builds (reading : Reading K) (start : World) (traced : TracedM Handle) (plain : GraphM Handle)
    (element : K) : Prop :=
  Completes start traced plain fun world result => reading.Denotes world result element

theorem completes_constant (reading : Reading K) (literal : Float) :
    reading.Builds world (liftM (GraphM.constant literal)) (liftM (GraphM.constant literal))
      (reading.meaning.literal literal) :=
  (completes_adding rfl rfl).mono fun _ _ _ hasNode => denotes_constant hasNode

end Reading

end Autodiff
