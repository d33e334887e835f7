import Autodiff.Proofs.Symbolic.Reading
import Mathlib

/-!
# Folding and simplification are sound

The operations on expressions fold literals and rewrite sums, products and quotients with special operands.
Each rewriting is an identity that the meaning of the opcodes has to satisfy (`Reading.Lawful`); a literal
counts as special if it compares equal to zero, one or minus one. Under these identities an operation on handles
that denote elements leads to a handle that denotes the operation applied to the elements
(`completes_unary`, `completes_binary`), and only operations of the vocabulary are added to the graph.
-/

namespace Autodiff

variable {graph : Graph} {node : Node} {pattern : Pattern} {value : Float} {lhs rhs : Handle}

/-! ## Special literals -/

/-- Numbers that compare equal are equal, the two zeros apart. -/
theorem eq_or_zeros_of_beq {left right : Float} (same : (left == right) = true) :
    left = right ∨ left = 0 ∧ right = -0 ∨ left = -0 ∧ right = 0 := by
  rcases Float.beq_iff_ne_nan_and_eq.mp same with ⟨_, _, equal | zeros⟩
  · exact .inl equal
  · exact .inr zeros

namespace Node

def literal? : Node → Option Float
  | .constant value => some value
  | _ => none

def negated? : Node → Option Handle
  | .unary .neg operand => some operand
  | _ => none

end Node

namespace Reading

variable {K : Type} [Zero K]

/-- The identities by which expressions over the vocabulary are simplified. -/
structure Lawful (reading : Reading K) : Prop where
  literal_zero : reading.meaning.literal 0 = 0
  literal_negZero : reading.meaning.literal (-0) = 0
  commutes : ∀ op, reading.vocabulary.binary op → op.isCommutative → ∀ left right,
    reading.meaning.binary op left right = reading.meaning.binary op right left
  neg_neg : reading.vocabulary.unary .neg → ∀ element,
    reading.meaning.unary .neg (reading.meaning.unary .neg element) = element
  zero_add : reading.vocabulary.binary .add → ∀ element, reading.meaning.binary .add 0 element = element
  add_zero : reading.vocabulary.binary .add → ∀ element, reading.meaning.binary .add element 0 = element
  sub_zero : reading.vocabulary.binary .sub → ∀ element, reading.meaning.binary .sub element 0 = element
  zero_sub : reading.vocabulary.binary .sub → ∀ element,
    reading.meaning.binary .sub 0 element = reading.meaning.unary .neg element
  zero_mul : reading.vocabulary.binary .mul → ∀ element, reading.meaning.binary .mul 0 element = 0
  mul_zero : reading.vocabulary.binary .mul → ∀ element, reading.meaning.binary .mul element 0 = 0
  one_mul : reading.vocabulary.binary .mul → ∀ element,
    reading.meaning.binary .mul (reading.meaning.literal 1) element = element
  mul_one : reading.vocabulary.binary .mul → ∀ element,
    reading.meaning.binary .mul element (reading.meaning.literal 1) = element
  negOne_mul : reading.vocabulary.binary .mul → ∀ element,
    reading.meaning.binary .mul (reading.meaning.literal (-1)) element =
      reading.meaning.unary .neg element
  mul_negOne : reading.vocabulary.binary .mul → ∀ element,
    reading.meaning.binary .mul element (reading.meaning.literal (-1)) =
      reading.meaning.unary .neg element
  div_one : reading.vocabulary.binary .div → ∀ element,
    reading.meaning.binary .div element (reading.meaning.literal 1) = element
  zero_div : reading.vocabulary.binary .div → ∀ element, reading.meaning.binary .div 0 element = 0
  /-- Differences and products may turn into negations. -/
  neg_of_sub : reading.vocabulary.binary .sub → reading.vocabulary.unary .neg
  neg_of_mul : reading.vocabulary.binary .mul → reading.vocabulary.unary .neg

variable {reading : Reading K} {world : World} {handle : Handle} {element : K}

/-! ## Looking at a node -/

omit [Zero K] in
theorem literal?_eq (hasNode : graph.HasNode handle node pattern) :
    graph.literal? handle = .ok node.literal? := by
  rcases hasNode with ⟨⟨node, pattern, references⟩, found, rfl, rfl⟩
  rw [Graph.literal?, Graph.entry_eq_ok.mpr found]
  cases node <;> rfl

omit [Zero K] in
theorem run_literal? (hasNode : graph.HasNode handle node pattern) :
    (Symbolic.literal? handle).run.run graph = (.ok node.literal?, graph) :=
  GraphM.run_lift_of_ok (literal?_eq hasNode) graph

omit [Zero K] in
theorem run_negated? (hasNode : graph.HasNode handle node pattern) :
    (Symbolic.negated? handle).run.run graph = (.ok node.negated?, graph) := by
  rcases hasNode with ⟨⟨node, pattern, references⟩, found, rfl, rfl⟩
  have looked : (do (← get).entry handle : GraphM Entry).run.run graph = _ :=
    GraphM.run_lift_of_ok (Graph.entry_eq_ok.mpr found) graph
  refine (GraphM.run_bind_of_ok looked _).trans ?_
  cases node with
  | unary op operand => cases op <;> rfl
  | _ => rfl

theorem Denotes.eq_literal (denotes : reading.Denotes world handle element)
    (hasNode : world.graph.HasNode handle node pattern) (isLiteral : node.literal? = some value) :
    reading.Exact world → element = reading.meaning.literal value := by
  intro exact
  cases node with
  | constant other =>
      cases isLiteral
      cases (Graph.exists_hasNode denotes.isScalar).elim fun _ other => (hasNode.unique other).2
      rw [← denotes.value_eq exact, (denotes_constant hasNode).value_eq exact]
  | _ => cases isLiteral

/-! ## Unary operations -/

omit [Zero K] in
theorem completes_constantOf (folding : Folding)
    (computed : folding.op.apply folding.left folding.right = .ok value) :
    Completes world (do
        let result ← MonadFold.fold folding.op folding.left folding.right
        liftM (GraphM.constant result))
      (do
        let result ← MonadFold.fold folding.op folding.left folding.right
        liftM (GraphM.constant result))
      fun world handle => folding ∈ world.foldings ∧
        world.graph.HasNode handle (.constant value) .scalar := by
  have folded : Completes world (MonadFold.fold folding.op folding.left folding.right)
      (MonadFold.fold folding.op folding.left folding.right)
      fun world result => folding ∈ world.foldings ∧ result = value :=
    Completes.fold computed ⟨List.mem_cons_self .., rfl⟩
  apply folded.bind
  rintro later _ _ ⟨isLogged, rfl⟩
  exact (completes_adding rfl rfl).mono fun final handle grows hasNode => ⟨grows.2 isLogged, hasNode⟩

theorem derive_unary {op : UnaryOp} (denotes : reading.Denotes world handle element) :
    world.graph.derive (.unary op handle) = .ok .scalar := by
  rw [Graph.derive, denotes.isScalar, ok_bind]
  split <;> rfl

/-- Below a negation there is a stored 1x1 expression, and negating twice leads back to it. -/
theorem Denotes.negated (lawful : reading.Lawful) {inner : Handle}
    (denotes : reading.Denotes world handle element)
    (hasNode : world.graph.HasNode handle (.unary .neg inner) .scalar) :
    reading.Denotes world inner (reading.meaning.unary .neg element) := by
  rcases denotes.spelled.allows hasNode with ⟨allowed, operands⟩
  have innerScalar : world.graph.pattern inner = .ok .scalar := by
    rcases hasNode with ⟨entry, found, isNode, isPattern⟩
    rcases (world.sound.wellFormed found).derived with isSymbol | derived
    · simp [isNode, Node.isSymbol] at isSymbol
    · rw [isNode, isPattern] at derived
      generalize Pattern.scalar = pattern at derived
      cases derived with
      | preserving innerKnown => exact innerKnown
      | filling _ fills => exact absurd rfl fills
  have innerDenotes : reading.Denotes world inner
      (world.graph.value reading.meaning reading.assignment inner) :=
    ⟨innerScalar, operands inner (by simp [Node.operands]), fun _ => rfl⟩
  refine innerDenotes.congr fun exact => ?_
  rw [← denotes.value_eq exact, (denotes_unary allowed innerDenotes hasNode).value_eq exact,
    lawful.neg_neg allowed]

theorem completes_unary (lawful : reading.Lawful) {op : UnaryOp}
    (allowed : reading.vocabulary.unary op) (denotes : reading.Denotes world handle element) :
    reading.Builds world (Symbolic.unary (.unary op) handle) (Symbolic.unary (.unary op) handle)
      (reading.meaning.unary op element) := by
  rcases denotes.exists_hasNode with ⟨node, hasNode⟩
  have added : reading.Builds world (liftM (GraphM.unary (.unary op) handle)) (liftM (GraphM.unary (.unary op) handle))
      (reading.meaning.unary op element) :=
    (completes_adding rfl (derive_unary denotes)).mono fun later result grows hasNode =>
      denotes_unary allowed (denotes.grow grows) hasNode
  unfold Symbolic.unary
  apply Completes.query_bind (run_literal? hasNode)
  cases isLiteral : node.literal? with
  | some value =>
      apply (completes_constantOf ⟨.unary op, value, 0⟩ rfl).mono
      rintro later result grows ⟨isLogged, resultNode⟩
      refine (denotes_constant resultNode).congr fun exact => ?_
      rw [denotes.eq_literal hasNode isLiteral (exact.before grows)]
      exact exact _ isLogged allowed
  | none =>
      apply Completes.query_bind (run_negated? hasNode)
      cases isNegated : node.negated? with
      | none => cases op <;> exact added
      | some inner =>
          have isNegation : node = .unary .neg inner := by
            cases node with
            | unary op operand => cases op <;> simp_all [Node.negated?]
            | _ => simp [Node.negated?] at isNegated
          subst isNegation
          cases op with
          | neg => exact .pure (denotes.negated lawful hasNode)
          | _ => exact added

theorem completes_negate (lawful : reading.Lawful) (allowed : reading.vocabulary.unary .neg)
    (denotes : reading.Denotes world handle element) :
    reading.Builds world (Symbolic.negate handle) (Symbolic.negate handle)
      (reading.meaning.unary .neg element) :=
  completes_unary lawful allowed denotes

/-! ## Binary operations -/

omit [Zero K] in
theorem derive_binary (op : BinaryOp) (left : graph.pattern lhs = .ok .scalar)
    (right : graph.pattern rhs = .ok .scalar) :
    graph.derive (.binary op lhs rhs) = .ok .scalar := by
  rw [Graph.derive, left, right, ok_bind, ok_bind]
  change (do
    let left ← Pattern.scalar.broadcast (1, 1)
    let right ← Pattern.scalar.broadcast (1, 1)
    left.combine right op.zeroRule) = _
  cases op.zeroRule <;> cbv

theorem completes_scalarBinary (lawful : reading.Lawful) {op : BinaryOp} (allowed : reading.vocabulary.binary op)
    {left right : K} (leftDenotes : reading.Denotes world lhs left) (rightDenotes : reading.Denotes world rhs right) :
    reading.Builds world (liftM (GraphM.scalarBinary op lhs rhs)) (liftM (GraphM.scalarBinary op lhs rhs))
      (reading.meaning.binary op left right) := by
  have same : (GraphM.scalarBinary op lhs rhs).run.run world.graph =
      (GraphM.add (.binary op (GraphM.sortOperands op lhs rhs).1
        (GraphM.sortOperands op lhs rhs).2)).run.run world.graph := by
    rw [GraphM.scalarBinary, GraphM.run_bind_of_ok (GraphM.run_pattern leftDenotes.isScalar),
      GraphM.run_bind_of_ok (GraphM.run_pattern rightDenotes.isScalar)]
    rfl
  -- The operands of a commutative operation may have changed places.
  rw [GraphM.sortOperands] at same
  split at same
  · rename_i swapped
    rw [Bool.and_eq_true] at swapped
    apply (completes_adding same (derive_binary op rightDenotes.isScalar leftDenotes.isScalar)).mono
    intro later result grows hasNode
    rw [lawful.commutes op allowed swapped.1]
    exact denotes_binary allowed (rightDenotes.grow grows) (leftDenotes.grow grows) hasNode
  · apply (completes_adding same (derive_binary op leftDenotes.isScalar rightDenotes.isScalar)).mono
    intro later result grows hasNode
    exact denotes_binary allowed (leftDenotes.grow grows) (rightDenotes.grow grows) hasNode

theorem Denotes.eq_zero (lawful : reading.Lawful) (denotes : reading.Denotes world handle element)
    (hasNode : world.graph.HasNode handle node pattern) (isZero : Symbolic.isValue node.literal? 0 = true) :
    reading.Exact world → element = 0 := by
  intro exact
  cases isLiteral : node.literal? with
  | none => simp [isLiteral, Symbolic.isValue] at isZero
  | some value =>
      rw [denotes.eq_literal hasNode isLiteral exact]
      simp only [isLiteral, Symbolic.isValue, Option.any_some] at isZero
      rcases eq_or_zeros_of_beq isZero with rfl | ⟨rfl, _⟩ | ⟨rfl, _⟩
      · exact lawful.literal_zero
      · exact lawful.literal_zero
      · exact lawful.literal_negZero

/-- A literal that compares equal to a number other than zero is this number. -/
theorem Denotes.eq_of_isValue (denotes : reading.Denotes world handle element)
    (hasNode : world.graph.HasNode handle node pattern) (isValue : Symbolic.isValue node.literal? value = true)
    (nonzero : value ≠ 0 ∧ value ≠ -0) :
    reading.Exact world → element = reading.meaning.literal value := by
  intro exact
  cases isLiteral : node.literal? with
  | none => simp [isLiteral, Symbolic.isValue] at isValue
  | some literal =>
      simp only [isLiteral, Symbolic.isValue, Option.any_some] at isValue
      rcases eq_or_zeros_of_beq isValue with rfl | ⟨_, rfl⟩ | ⟨_, rfl⟩
      · exact denotes.eq_literal hasNode isLiteral exact
      · exact absurd rfl nonzero.2
      · exact absurd rfl nonzero.1

theorem denotes_zero (lawful : reading.Lawful) (world : World) :
    reading.Denotes world .zero 0 :=
  lawful.literal_zero ▸ denotes_constant world.sound.zero

theorem denotes_one (world : World) : reading.Denotes world .one (reading.meaning.literal 1) :=
  denotes_constant world.sound.one

theorem denotes_two (world : World) : reading.Denotes world .two (reading.meaning.literal 2) :=
  denotes_constant world.sound.two

theorem completes_simplified (lawful : reading.Lawful) {op : BinaryOp} (allowed : reading.vocabulary.binary op)
    {left right : K} (leftDenotes : reading.Denotes world lhs left) (rightDenotes : reading.Denotes world rhs right)
    {leftNode rightNode : Node} {leftPattern rightPattern : Pattern}
    (hasLeft : world.graph.HasNode lhs leftNode leftPattern)
    (hasRight : world.graph.HasNode rhs rightNode rightPattern) :
    reading.Builds world (Symbolic.simplified op leftNode.literal? rightNode.literal? lhs rhs) (Symbolic.simplified op leftNode.literal? rightNode.literal? lhs rhs)
      (reading.meaning.binary op left right) := by
  have added := completes_scalarBinary lawful allowed leftDenotes rightDenotes
  have one : (1 : Float) ≠ 0 ∧ (1 : Float) ≠ -0 := by decide
  have negOne : (-1 : Float) ≠ 0 ∧ (-1 : Float) ≠ -0 := by decide
  cases op with
  | add =>
      simp only [Symbolic.simplified]
      split_ifs with leftZero rightZero
      · refine .pure (rightDenotes.congr fun exact => ?_)
        rw [leftDenotes.eq_zero lawful hasLeft leftZero exact, lawful.zero_add allowed]
      · refine .pure (leftDenotes.congr fun exact => ?_)
        rw [rightDenotes.eq_zero lawful hasRight rightZero exact, lawful.add_zero allowed]
      · exact added
  | sub =>
      simp only [Symbolic.simplified]
      split_ifs with rightZero leftZero
      · refine .pure (leftDenotes.congr fun exact => ?_)
        rw [rightDenotes.eq_zero lawful hasRight rightZero exact, lawful.sub_zero allowed]
      · apply (completes_negate lawful (lawful.neg_of_sub allowed) rightDenotes).mono
        intro later result grows denotes
        refine denotes.congr fun exact => ?_
        rw [leftDenotes.eq_zero lawful hasLeft leftZero (exact.before grows),
          lawful.zero_sub allowed]
      · exact added
  | mul =>
      simp only [Symbolic.simplified]
      split_ifs with someZero leftOne rightOne leftNegOne rightNegOne
      · refine .pure ((denotes_zero lawful world).congr fun exact => ?_)
        rcases Bool.or_eq_true_iff.mp someZero with leftZero | rightZero
        · rw [leftDenotes.eq_zero lawful hasLeft leftZero exact, lawful.zero_mul allowed]
        · rw [rightDenotes.eq_zero lawful hasRight rightZero exact, lawful.mul_zero allowed]
      · refine .pure (rightDenotes.congr fun exact => ?_)
        rw [leftDenotes.eq_of_isValue hasLeft leftOne one exact, lawful.one_mul allowed]
      · refine .pure (leftDenotes.congr fun exact => ?_)
        rw [rightDenotes.eq_of_isValue hasRight rightOne one exact, lawful.mul_one allowed]
      · apply (completes_negate lawful (lawful.neg_of_mul allowed) rightDenotes).mono
        intro later result grows denotes
        refine denotes.congr fun exact => ?_
        rw [leftDenotes.eq_of_isValue hasLeft leftNegOne negOne (exact.before grows),
          lawful.negOne_mul allowed]
      · apply (completes_negate lawful (lawful.neg_of_mul allowed) leftDenotes).mono
        intro later result grows denotes
        refine denotes.congr fun exact => ?_
        rw [rightDenotes.eq_of_isValue hasRight rightNegOne negOne (exact.before grows),
          lawful.mul_negOne allowed]
      · exact added
  | div =>
      simp only [Symbolic.simplified]
      split_ifs with rightOne leftZero
      · refine .pure (leftDenotes.congr fun exact => ?_)
        rw [rightDenotes.eq_of_isValue hasRight rightOne one exact, lawful.div_one allowed]
      · refine .pure ((denotes_zero lawful world).congr fun exact => ?_)
        rw [leftDenotes.eq_zero lawful hasLeft leftZero exact, lawful.zero_div allowed]
      · exact added
  | pow | atan2 | hypot | fmin | fmax => exact added

theorem completes_binary (lawful : reading.Lawful) {op : BinaryOp} (allowed : reading.vocabulary.binary op)
    {left right : K} (leftDenotes : reading.Denotes world lhs left) (rightDenotes : reading.Denotes world rhs right) :
    reading.Builds world (Symbolic.binary op lhs rhs) (Symbolic.binary op lhs rhs)
      (reading.meaning.binary op left right) := by
  rcases leftDenotes.exists_hasNode with ⟨leftNode, hasLeft⟩
  rcases rightDenotes.exists_hasNode with ⟨rightNode, hasRight⟩
  have simplified := completes_simplified lawful allowed leftDenotes rightDenotes hasLeft hasRight
  unfold Symbolic.binary
  apply Completes.query_bind (run_literal? hasLeft)
  apply Completes.query_bind (run_literal? hasRight)
  cases isLeft : leftNode.literal? with
  | none =>
      rw [isLeft] at simplified
      exact simplified
  | some leftValue =>
      cases isRight : rightNode.literal? with
      | none =>
          rw [isLeft, isRight] at simplified
          exact simplified
      | some rightValue =>
          apply (completes_constantOf ⟨.binary op, leftValue, rightValue⟩ rfl).mono
          rintro later result grows ⟨isLogged, resultNode⟩
          refine (denotes_constant resultNode).congr fun exact => ?_
          rw [leftDenotes.eq_literal hasLeft isLeft (exact.before grows),
            rightDenotes.eq_literal hasRight isRight (exact.before grows)]
          exact exact _ isLogged allowed

theorem completes_isZero (lawful : reading.Lawful) (denotes : reading.Denotes world handle element) :
    Completes world (liftM (Symbolic.isZero handle)) (liftM (Symbolic.isZero handle))
      fun later isZero => isZero = true → reading.Exact later → element = 0 := by
  rcases denotes.exists_hasNode with ⟨node, hasNode⟩
  have ran : (Symbolic.isZero handle).run.run world.graph =
      (.ok (Symbolic.isValue node.literal? 0), world.graph) := by
    refine GraphM.run_lift_of_ok ?_ world.graph
    rw [Graph.isLiteral, literal?_eq hasNode, ok_bind]
    cases node.literal? <;> rfl
  exact .lift ran world.sound (.refl world.graph) fun isZero exact =>
    denotes.eq_zero lawful hasNode isZero exact

end Reading

end Autodiff
