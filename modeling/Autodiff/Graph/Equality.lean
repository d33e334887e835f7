import Autodiff.Graph.Basic

/-!
# Structural equality

Two nodes are equal up to a depth if they perform the same operation on operands that are equal
up to the next smaller depth; operands of commutative operations may be exchanged.
-/

namespace Autodiff.Graph

/-- Equality of nodes, looking at most `depth` operations deep. Equal handles are equal at every
depth, and different symbols never are. -/
def isEqual (graph : Graph) : Nat → Handle → Handle → Bool
  | 0, left, right => left == right
  | depth + 1, left, right =>
    left == right ||
      match graph.entry? left, graph.entry? right with
      | some first, some second =>
        if !first.node.sameOperation second.node || first.node.isSymbol
            || first.pattern.shape ≠ second.pattern.shape then false
        else
          (first.node.operands.zip second.node.operands).all
              (fun pair => isEqual graph depth pair.1 pair.2) ||
            match first.node, second.node with
            | .binary op lhs rhs, .binary _ lhs' rhs' =>
              op.isCommutative && isEqual graph depth lhs rhs' && isEqual graph depth rhs lhs'
            | _, _ => false
      | _, _ => false

end Autodiff.Graph
