import Autodiff.Graph.Equality
import Autodiff.Proofs.Lowering.PostOrder
import Autodiff.Proofs.Symbolic.Operations

/-!
# Structural equality is identity

Structural equality looks into expressions up to some depth. In a graph that was built by constructors and symbolic
sweeps it never finds more than the handles show: equal operations on equal operands are one node, because every
node but a symbol is found in the table, and the operands of a commutative operation are in order, so exchanging
them leads nowhere else. One level is settled from the level below (`Tidy.isEqual_succ_iff`), and the levels by
induction.
-/

namespace Autodiff

/-! ## Operations and operands -/

namespace Node

theorem length_operands_eq {first second : Node} (same : first.sameOperation second) :
    first.operands.length = second.operands.length := by
  cases first <;> cases second <;> simp_all [sameOperation, operands]

theorem eq_of_operands_eq {first second : Node} (same : first.sameOperation second)
    (operands : first.operands = second.operands) : first = second := by
  cases first <;> cases second <;> simp_all [sameOperation, Node.operands]

end Node

theorem all_zip_eq_iff {α : Type} {firsts seconds : List α} {equal : α → α → Bool}
    (isIdentity : ∀ first second, equal first second ↔ first = second) (sameLength : firsts.length = seconds.length) :
    ((firsts.zip seconds).all fun pair => equal pair.1 pair.2) ↔ firsts = seconds := by
  induction firsts generalizing seconds with
  | nil => simp [List.length_eq_zero_iff.mp sameLength.symm]
  | cons first firsts ih =>
      rcases seconds with _ | ⟨second, seconds⟩
      · cases sameLength
      · simp [isIdentity, ih (Nat.succ.inj sameLength)]

namespace Graph

namespace Tidy

variable {graph : Graph} {left right : Handle}

theorem eq_of_same_node (tidy : graph.Tidy) {first second : Entry} (isFirst : graph.entry? left = some first)
    (isSecond : graph.entry? right = some second) (same : first.node = second.node) : left = right := by
  have leftNode : graph.nodes[left.index]? = some first.node := getElem?_nodes.mpr ⟨first, isFirst, rfl⟩
  have rightNode : graph.nodes[right.index]? = some first.node := getElem?_nodes.mpr ⟨second, isSecond, same.symm⟩
  rcases List.getElem?_eq_some_iff.mp leftNode with ⟨inside, _⟩
  exact Handle.eq_of_index ((List.getElem?_inj inside tidy.distinct).mp (leftNode.trans rightNode.symm))

theorem operands_eq_of_exchanged (tidy : graph.Tidy) {op : BinaryOp} {lhs rhs : Handle} (commutes : op.isCommutative)
    (first : .binary op lhs rhs ∈ graph.nodes) (second : .binary op rhs lhs ∈ graph.nodes) : lhs = rhs :=
  Handle.eq_of_index (Nat.le_antisymm (tidy.canonical _ first commutes) (tidy.canonical _ second commutes))

/-- If nothing but identity is found one level below, nothing else is found here. -/
theorem isEqual_succ_iff (tidy : graph.Tidy) {depth : Nat}
    (below : ∀ left right, graph.isEqual depth left right ↔ left = right) :
    graph.isEqual (depth + 1) left right ↔ left = right := by
  constructor
  · intro equal
    rw [isEqual, Bool.or_eq_true, beq_iff_eq] at equal
    refine equal.elim id fun equal => ?_
    split at equal
    · rename_i first second isFirst isSecond
      split at equal
      · cases equal
      · rename_i alike
        simp only [Bool.or_eq_true, Bool.not_eq_true', not_or, Bool.not_eq_false] at alike
        have sameOperation := alike.1.1
        apply tidy.eq_of_same_node isFirst isSecond
        rw [Bool.or_eq_true, all_zip_eq_iff below (Node.length_operands_eq sameOperation)] at equal
        rcases equal with sameOperands | exchanged
        · exact Node.eq_of_operands_eq sameOperation sameOperands
        · split at exchanged
          · rename_i op lhs rhs other lhs' rhs' isBinary isBinary'
            simp only [Bool.and_eq_true, below] at exchanged
            rcases exchanged with ⟨⟨commutes, rfl⟩, rfl⟩
            rw [isBinary, isBinary'] at sameOperation ⊢
            cases of_decide_eq_true sameOperation
            have sameOperands := tidy.operands_eq_of_exchanged commutes
              (isBinary ▸ List.mem_of_getElem? (getElem?_nodes.mpr ⟨first, isFirst, rfl⟩))
              (isBinary' ▸ List.mem_of_getElem? (getElem?_nodes.mpr ⟨second, isSecond, rfl⟩))
            rw [sameOperands]
          · cases exchanged
    · cases equal
  · rintro rfl
    simp [isEqual]

theorem isEqual_iff (tidy : graph.Tidy) (depth : Nat) (left right : Handle) :
    graph.isEqual depth left right ↔ left = right := by
  induction depth generalizing left right with
  | zero => simp [isEqual]
  | succ depth ih => exact tidy.isEqual_succ_iff ih

end Tidy

/-- In every graph that constructors and symbolic sweeps lead to, whether they succeeded or failed, two handles are
structurally equal, at any depth, exactly if they are the same; the handles need not be nodes of the graph. -/
theorem Evolves.isEqual_iff_eq {graph : Graph} (evolves : initial.Evolves graph) (depth : Nat) (left right : Handle) :
    graph.isEqual depth left right = true ↔ left = right :=
  (evolves.of_lasts lasts_tidy (lasts_tidy.initial tidy_empty)).isEqual_iff depth left right

/-- The quotients of two symbols either way round are told apart at every depth, and a handle that is not a node is
equal to itself. -/
theorem quotients_isEqual_iff_eq :
    let symbols := (GraphM.scalarSymbol "y").graphAfter ((GraphM.scalarSymbol "x").graphAfter .initial)
    let quotients := (GraphM.binary (.binary .div) ⟨4⟩ ⟨3⟩).graphAfter
      ((GraphM.binary (.binary .div) ⟨3⟩ ⟨4⟩).graphAfter symbols)
    initial.Evolves quotients ∧
      ∀ depth, ¬quotients.isEqual depth ⟨5⟩ ⟨6⟩ = true ∧ quotients.isEqual depth ⟨9⟩ ⟨9⟩ = true := by
  intro symbols quotients
  have evolves : initial.Evolves quotients :=
    .after (.after (.after (.after .refl (.construct (.scalarSymbol ..))) (.construct (.scalarSymbol ..)))
      (.construct (.binary ..))) (.construct (.binary ..))
  refine ⟨evolves, fun depth => ⟨fun equal => ?_, (evolves.isEqual_iff_eq depth ⟨9⟩ ⟨9⟩).mpr rfl⟩⟩
  cases (evolves.isEqual_iff_eq depth ⟨5⟩ ⟨6⟩).mp equal

end Graph

end Autodiff
