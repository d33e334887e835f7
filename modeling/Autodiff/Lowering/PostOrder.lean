import Autodiff.Graph.Basic

/-!
# Post-order

Every node that the roots reach, each once and after all of its operands. The walk keeps its
own stack: a frame is a node whose operands are being visited. It ends because each step either
enters a node that was not entered before or leaves one operand fewer to look at.
-/

namespace Autodiff

/-- How far the walk has come with a node. -/
inductive Mark where
  | fresh | active | done
deriving DecidableEq, Repr

/-- A node whose operands are being visited, with the operands still to visit. -/
structure Frame where
  node : Handle
  pending : List Handle

/-- What is left to do in the frames of a stack. -/
def pendingWork (stack : List Frame) : Nat :=
  total (stack.map fun frame => frame.pending.length + 1)

/-- Marking a node never makes another one fresh. -/
theorem count_fresh_setIfInBounds_le (marks : Array Mark) (index : Nat) (mark : Mark)
    (notFresh : mark ≠ .fresh) :
    (marks.setIfInBounds index mark).count .fresh ≤ marks.count .fresh := by
  by_cases inside : index < marks.size
  · rw [Array.setIfInBounds, dif_pos inside, Array.count_set]
    simp [notFresh]
  · exact Nat.le_of_eq (by rw [Array.setIfInBounds, dif_neg inside])

/-- Marking a fresh node leaves fewer fresh ones. -/
theorem count_fresh_setIfInBounds_lt (marks : Array Mark) (index : Nat) (mark : Mark)
    (notFresh : mark ≠ .fresh) (fresh : marks[index]? = some .fresh) :
    (marks.setIfInBounds index mark).count .fresh < marks.count .fresh := by
  obtain ⟨inside, isFresh⟩ := Array.getElem?_eq_some_iff.mp fresh
  rw [Array.setIfInBounds, dif_pos inside, Array.count_set]
  have positive : 0 < marks.count .fresh := by
    rw [Array.count_pos_iff]
    exact isFresh ▸ Array.getElem_mem inside
  have before : (marks[index] == Mark.fresh) = true := beq_iff_eq.mpr isFresh
  have after : ¬(mark == Mark.fresh) = true := fun same => notFresh (beq_iff_eq.mp same)
  rw [if_pos before, if_neg after]
  omega

/-- Walks until the stack is empty; `order` holds the finished nodes, last first. -/
def walk (graph : Graph) (marks : Array Mark) (order : List Handle) (stack : List Frame) :
    Except Error (Array Mark × List Handle) :=
  match stack with
  | [] => .ok (marks, order)
  | ⟨node, []⟩ :: stack =>
    walk graph (marks.setIfInBounds node.index .done) (node :: order) stack
  | ⟨node, operand :: pending⟩ :: stack =>
    match _marked : marks[operand.index]?, graph.entry? operand with
    | some .done, some _ => walk graph marks order (⟨node, pending⟩ :: stack)
    | some .active, some _ => .error (.graph (.cycle operand))
    | some .fresh, some entry =>
      walk graph (marks.setIfInBounds operand.index .active) order
        (⟨operand, entry.node.operands⟩ :: ⟨node, pending⟩ :: stack)
    | _, _ => .error (.graph (.unknownNode operand))
termination_by (marks.count .fresh, pendingWork stack)
decreasing_by
  · rcases Nat.lt_or_eq_of_le
      (count_fresh_setIfInBounds_le marks node.index .done (by decide)) with fewer | equal
    · exact Prod.Lex.left _ _ fewer
    · rw [equal]
      exact Prod.Lex.right _ (by simp [pendingWork])
  · exact Prod.Lex.right _ (by simp [pendingWork])
  · exact Prod.Lex.left _ _
      (count_fresh_setIfInBounds_lt marks operand.index .active (by decide) _marked)

def walkRoots (graph : Graph) (marks : Array Mark) (order : List Handle) :
    List Handle → Except Error (List Handle)
  | [] => .ok order
  | root :: roots =>
    match marks[root.index]?, graph.entry? root with
    | some .fresh, some entry => do
      let (marks, order) ← walk graph (marks.setIfInBounds root.index .active) order
        [⟨root, entry.node.operands⟩]
      walkRoots graph marks order roots
    | some _, some _ => walkRoots graph marks order roots
    | _, _ => .error (.violation (.foreignHandle root))

/-- The nodes that the roots reach, each once and after its operands. -/
def Graph.postOrder (graph : Graph) (roots : List Handle) : Except Error (List Handle) := do
  return (← walkRoots graph (Array.replicate graph.size .fresh) [] roots).reverse

end Autodiff
