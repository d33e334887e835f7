import Autodiff.Proofs.Lowering.Correctness
import Autodiff.Proofs.Lowering.Traversal
import Autodiff.Proofs.Symbolic.Operations

/-!
# The order in which nodes are visited

In every graph that operations lead to, post-order answers on any list of nodes. The walk ends by its definition;
it meets no cycle and no foreign handle, because operands come before their readers, and no node twice, because it
enters fresh ones only.
-/

namespace Autodiff

namespace Graph

/-- The nodes that the roots reach, each once and behind its operands. -/
structure IsPostOrder (graph : Graph) (roots order : List Handle) : Prop where
  distinct : order.Nodup
  mem_iff : ∀ handle, handle ∈ order ↔ ∃ root ∈ roots, graph.Reaches root handle
  operandsFirst : ∀ ⦃earlier node later⦄, order = earlier ++ node :: later →
    ∀ operand, graph.HasOperand node operand → operand ∈ earlier

variable {graph : Graph} {roots : List Handle}

theorem Settled.mem_of_reverse {order earlier later : List Handle} {node operand : Handle}
    (settled : graph.Settled order) (split : order.reverse = earlier ++ node :: later)
    (reads : graph.HasOperand node operand) : operand ∈ earlier := by
  rw [List.reverse_eq_iff] at split
  rw [split, List.reverse_append, List.reverse_cons, List.append_assoc] at settled
  exact List.mem_reverse.mp (settled.mem_of_append reads)

/-- From any nodes of a graph post-order succeeds, whether or not they repeat or reach each other. -/
theorem Evolves.postOrder_isPostOrder (evolves : initial.Evolves graph)
    (known : ∀ root ∈ roots, graph.contains root) :
    ∃ order, graph.postOrder roots = .ok order ∧ graph.IsPostOrder roots order := by
  have wellFormed : graph.WellFormed := evolves.of_lasts lasts_wellFormed wellFormed_initial
  rcases wellFormed.exists_postOrder known with ⟨reversed, ordered, settled, reached⟩
  refine ⟨reversed.reverse, ordered, (postOrder_spec ordered).1, ?_, ?_⟩
  · intro handle
    rw [List.mem_reverse, reached]
  · intro earlier node later split operand
    exact settled.mem_of_reverse split

/-- The vector is visited before its double, and neither again when they are named once more. -/
theorem doubling_isPostOrder : initial.Evolves doubling ∧
    (∀ root ∈ [⟨4⟩, ⟨3⟩, ⟨4⟩], doubling.contains root) ∧
    doubling.postOrder [⟨4⟩, ⟨3⟩, ⟨4⟩] = .ok [⟨2⟩, ⟨3⟩, ⟨4⟩] ∧
    doubling.IsPostOrder [⟨4⟩, ⟨3⟩, ⟨4⟩] [⟨2⟩, ⟨3⟩, ⟨4⟩] := by
  have evolves : initial.Evolves doubling :=
    .after (.after .refl (.construct (.vectorSymbol ..))) (.construct (.binary ..))
  rcases doubling_eq with ⟨zero, one, two, interned, same⟩
  have known : ∀ root ∈ [⟨4⟩, ⟨3⟩, ⟨4⟩], doubling.contains root := by
    rw [same]
    simp [contains, size]
  have ordered : doubling.postOrder [⟨4⟩, ⟨3⟩, ⟨4⟩] = .ok [⟨2⟩, ⟨3⟩, ⟨4⟩] := by
    rw [same]
    cbv
  rcases evolves.postOrder_isPostOrder known with ⟨order, found, isPostOrder⟩
  cases ordered.symm.trans found
  exact ⟨evolves, known, ordered, isPostOrder⟩

end Graph

end Autodiff
