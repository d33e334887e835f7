import Autodiff.Proofs.Lowering.Traversal
import Autodiff.Proofs.Symbolic.Operations
import Autodiff.Proofs.Symbolic.Simplification

/-!
# Normal forms

The operations on expressions fold literals and rewrite a few special forms. Nodes that no rule applies to are left
alone (`Graph.Reducible`): such an operation is looked up in the table of the graph, which leads to the node itself
if the graph has it. So an operation on the operands of an irreducible node, in either order if it is commutative,
returns the node and leaves the graph as it is (`Tidy.run_unary`, `Tidy.run_binary`).
-/

namespace Autodiff

namespace Graph

/-! ## Rules -/

/-- The node is a literal that compares equal to a number. -/
def ComparesTo (graph : Graph) (handle : Handle) (value : Float) : Prop :=
  ∃ literal pattern, graph.HasNode handle (.constant literal) pattern ∧ (literal == value) = true

/-- The operations that are folded or rewritten: those on literals only, double negations, sums and differences with
a zero, products with a zero, a one or a minus one, quotients by a one or of a zero. -/
inductive Reducible (graph : Graph) : Node → Prop where
  | literal {op : UnaryOp} {operand : Handle} {value : Float} {pattern : Pattern}
      (isLiteral : graph.HasNode operand (.constant value) pattern) : Reducible graph (.unary op operand)
  | doubleNegation {operand inner : Handle} {pattern : Pattern}
      (isNegation : graph.HasNode operand (.unary .neg inner) pattern) : Reducible graph (.unary .neg operand)
  | literals {op : BinaryOp} {lhs rhs : Handle} {left right : Float} {leftPattern rightPattern : Pattern}
      (leftLiteral : graph.HasNode lhs (.constant left) leftPattern)
      (rightLiteral : graph.HasNode rhs (.constant right) rightPattern) : Reducible graph (.binary op lhs rhs)
  | zeroTerm {op : BinaryOp} {lhs rhs term : Handle} (isSum : op = .add ∨ op = .sub)
      (isTerm : term = lhs ∨ term = rhs) (isZero : graph.ComparesTo term 0) : Reducible graph (.binary op lhs rhs)
  | specialFactor {lhs rhs factor : Handle} {value : Float} (isFactor : factor = lhs ∨ factor = rhs)
      (isSpecial : value = 0 ∨ value = 1 ∨ value = -1) (compares : graph.ComparesTo factor value) :
      Reducible graph (.binary .mul lhs rhs)
  | unitDivisor {lhs rhs : Handle} (isOne : graph.ComparesTo rhs 1) : Reducible graph (.binary .div lhs rhs)
  | zeroDividend {lhs rhs : Handle} (isZero : graph.ComparesTo lhs 0) : Reducible graph (.binary .div lhs rhs)

/-- The operands of an operation, in either order if it is commutative. -/
def SameOperands (op : BinaryOp) (lhs rhs first second : Handle) : Prop :=
  first = lhs ∧ second = rhs ∨ op.isCommutative ∧ first = rhs ∧ second = lhs

variable {graph : Graph} {handle lhs rhs : Handle} {pattern : Pattern}

/-- Nodes with exchanged operands are reducible alike, as far as commutative operations go. -/
theorem Reducible.exchange {op : BinaryOp} (commutes : op.isCommutative)
    (reducible : graph.Reducible (.binary op lhs rhs)) : graph.Reducible (.binary op rhs lhs) := by
  cases reducible with
  | literals leftLiteral rightLiteral => exact .literals rightLiteral leftLiteral
  | zeroTerm isSum isTerm isZero => exact .zeroTerm isSum isTerm.symm isZero
  | specialFactor isFactor isSpecial compares => exact .specialFactor isFactor.symm isSpecial compares
  | unitDivisor isOne => cases commutes
  | zeroDividend isZero => cases commutes

theorem comparesTo_of_isValue {node : Node} {value : Float} (hasNode : graph.HasNode handle node pattern)
    (isValue : Symbolic.isValue node.literal? value = true) : graph.ComparesTo handle value := by
  cases node with
  | constant literal => exact ⟨literal, pattern, hasNode, isValue⟩
  | _ => cases isValue

namespace Tidy

variable (tidy : graph.Tidy)
include tidy

/-! ## Nodes are found again -/

theorem run_add_of_hasNode {node : Node} (hasNode : graph.HasNode handle node pattern)
    (notSymbol : node.isSymbol = false) : (GraphM.add node).run.run graph = (.ok handle, graph) := by
  rcases hasNode with ⟨entry, found, rfl, rfl⟩
  have isInterned := tidy.interned (getElem?_nodes.mpr ⟨entry, found, rfl⟩) notSymbol
  rw [GraphM.run_add (tidy.derive_eq found notSymbol), Graph.insert, isInterned]

/-- The operands of a node of a commutative operation can be given in either order. -/
theorem sortOperands_eq {op : BinaryOp} (hasNode : graph.HasNode handle (.binary op lhs rhs) pattern)
    {first second : Handle} (sameOperands : SameOperands op lhs rhs first second) :
    GraphM.sortOperands op first second = (lhs, rhs) := by
  have sorted := tidy.canonical _ (List.mem_of_getElem? hasNode.getElem?_nodes)
  rcases sameOperands with ⟨rfl, rfl⟩ | ⟨commutes, rfl, rfl⟩
  · refine if_neg fun swaps => ?_
    rw [Bool.and_eq_true, decide_eq_true_eq] at swaps
    have := sorted swaps.1
    omega
  · unfold GraphM.sortOperands
    rw [commutes, Bool.true_and]
    split
    · rfl
    · rename_i notSmaller
      rw [decide_eq_true_eq, Nat.not_lt] at notSmaller
      have same : first = second := Handle.eq_of_index (Nat.le_antisymm notSmaller (sorted commutes))
      rw [same]

theorem exists_operand {node : Node} (hasNode : graph.HasNode handle node pattern) {operand : Handle}
    (member : operand ∈ node.operands) : ∃ node pattern, graph.HasNode operand node pattern := by
  rcases hasNode with ⟨entry, found, rfl, rfl⟩
  rcases tidy.wellFormed.entry?_of_hasOperand ⟨entry, found, member⟩ with ⟨other, isOther⟩
  exact ⟨_, _, other, isOther, rfl, rfl⟩

theorem run_constant {literal : Float} (hasNode : graph.HasNode handle (.constant literal) pattern) :
    (GraphM.constant literal).run.run graph = (.ok handle, graph) :=
  tidy.run_add_of_hasNode hasNode rfl

theorem run_unary {op : UnaryOp} {operand : Handle} (hasNode : graph.HasNode handle (.unary op operand) pattern)
    (irreducible : ¬graph.Reducible (.unary op operand)) :
    (Symbolic.unary (.unary op) operand : GraphM Handle).run.run graph = (.ok handle, graph) := by
  have added : (GraphM.unary (.unary op) operand).run.run graph = (.ok handle, graph) :=
    tidy.run_add_of_hasNode hasNode rfl
  rcases tidy.exists_operand hasNode (List.mem_singleton_self operand) with ⟨node, operandPattern, isOperand⟩
  unfold Symbolic.unary
  refine (GraphM.run_bind_of_ok (Reading.run_literal? isOperand) _).trans ?_
  cases node with
  | constant value => exact absurd (.literal isOperand) irreducible
  | unary inner operand =>
      refine (GraphM.run_bind_of_ok (Reading.run_negated? isOperand) _).trans ?_
      cases op with
      | neg =>
          cases inner with
          | neg => exact absurd (.doubleNegation isOperand) irreducible
          | _ => exact added
      | _ => exact added
  | _ =>
      refine (GraphM.run_bind_of_ok (Reading.run_negated? isOperand) _).trans ?_
      cases op <;> exact added

theorem run_scalarBinary {op : BinaryOp} (hasNode : graph.HasNode handle (.binary op lhs rhs) pattern)
    (left : graph.pattern lhs = .ok .scalar) (right : graph.pattern rhs = .ok .scalar) {first second : Handle}
    (sameOperands : SameOperands op lhs rhs first second) :
    (GraphM.scalarBinary op first second).run.run graph = (.ok handle, graph) := by
  have scalars : graph.pattern first = .ok .scalar ∧ graph.pattern second = .ok .scalar := by
    rcases sameOperands with ⟨rfl, rfl⟩ | ⟨_, rfl, rfl⟩
    · exact ⟨left, right⟩
    · exact ⟨right, left⟩
  rw [GraphM.scalarBinary, GraphM.run_bind_of_ok (GraphM.run_pattern scalars.1),
    GraphM.run_bind_of_ok (GraphM.run_pattern scalars.2), tidy.sortOperands_eq hasNode sameOperands]
  exact tidy.run_add_of_hasNode hasNode rfl

end Tidy

theorem simplified_eq {op : BinaryOp} (irreducible : ¬graph.Reducible (.binary op lhs rhs)) {left right : Node}
    {leftPattern rightPattern : Pattern} (isLeft : graph.HasNode lhs left leftPattern)
    (isRight : graph.HasNode rhs right rightPattern) :
    (Symbolic.simplified op left.literal? right.literal? lhs rhs : GraphM Handle) =
      GraphM.scalarBinary op lhs rhs := by
  have leftIsNot : ∀ value, (graph.ComparesTo lhs value → graph.Reducible (.binary op lhs rhs)) →
      Symbolic.isValue left.literal? value = false := by
    intro value reduces
    exact Bool.eq_false_iff.mpr fun isValue => irreducible (reduces (comparesTo_of_isValue isLeft isValue))
  have rightIsNot : ∀ value, (graph.ComparesTo rhs value → graph.Reducible (.binary op lhs rhs)) →
      Symbolic.isValue right.literal? value = false := by
    intro value reduces
    exact Bool.eq_false_iff.mpr fun isValue => irreducible (reduces (comparesTo_of_isValue isRight isValue))
  cases op with
  | add =>
      rw [Symbolic.simplified, leftIsNot 0 (.zeroTerm (.inl rfl) (.inl rfl)),
        rightIsNot 0 (.zeroTerm (.inl rfl) (.inr rfl))]
      rfl
  | sub =>
      rw [Symbolic.simplified, leftIsNot 0 (.zeroTerm (.inr rfl) (.inl rfl)),
        rightIsNot 0 (.zeroTerm (.inr rfl) (.inr rfl))]
      rfl
  | mul =>
      rw [Symbolic.simplified, leftIsNot 0 (.specialFactor (.inl rfl) (by simp)),
        rightIsNot 0 (.specialFactor (.inr rfl) (by simp)), leftIsNot 1 (.specialFactor (.inl rfl) (by simp)),
        rightIsNot 1 (.specialFactor (.inr rfl) (by simp)), leftIsNot (-1) (.specialFactor (.inl rfl) (by simp)),
        rightIsNot (-1) (.specialFactor (.inr rfl) (by simp))]
      rfl
  | div =>
      rw [Symbolic.simplified, rightIsNot 1 .unitDivisor, leftIsNot 0 .zeroDividend]
      rfl
  | _ => rfl

/-- An irreducible binary operation is found again, also from exchanged operands if it is commutative. -/
theorem Tidy.run_binary (tidy : graph.Tidy) {op : BinaryOp}
    (hasNode : graph.HasNode handle (.binary op lhs rhs) pattern)
    (irreducible : ¬graph.Reducible (.binary op lhs rhs)) (left : graph.pattern lhs = .ok .scalar)
    (right : graph.pattern rhs = .ok .scalar) {first second : Handle}
    (sameOperands : SameOperands op lhs rhs first second) :
    (Symbolic.binary op first second : GraphM Handle).run.run graph = (.ok handle, graph) := by
  have added := tidy.run_scalarBinary hasNode left right sameOperands
  have stillIrreducible : ¬graph.Reducible (.binary op first second) := by
    rcases sameOperands with ⟨rfl, rfl⟩ | ⟨commutes, rfl, rfl⟩
    · exact irreducible
    · exact fun reducible => irreducible (reducible.exchange commutes)
  have known : (∃ node, graph.HasNode first node .scalar) ∧ ∃ node, graph.HasNode second node .scalar := by
    rcases sameOperands with ⟨rfl, rfl⟩ | ⟨_, rfl, rfl⟩
    · exact ⟨exists_hasNode left, exists_hasNode right⟩
    · exact ⟨exists_hasNode right, exists_hasNode left⟩
  rcases known with ⟨⟨firstNode, isFirst⟩, secondNode, isSecond⟩
  rw [← simplified_eq stillIrreducible isFirst isSecond] at added
  unfold Symbolic.binary
  refine (GraphM.run_bind_of_ok (Reading.run_literal? isFirst) _).trans ?_
  refine (GraphM.run_bind_of_ok (Reading.run_literal? isSecond) _).trans ?_
  cases firstNode with
  | constant value =>
      cases secondNode with
      | constant value' => exact absurd (.literals isFirst isSecond) stillIrreducible
      | _ => exact added
  | _ => exact added

end Graph

end Autodiff
