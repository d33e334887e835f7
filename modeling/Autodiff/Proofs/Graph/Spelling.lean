import Autodiff.Proofs.Graph.Growth

/-!
# What expressions are made of

A vocabulary is a set of symbols and operations. An expression is spelled with a vocabulary if all nodes that it
is put together from are in it. Nodes that are added later do not change that.
-/

namespace Autodiff

variable {graph : Graph} {vocabulary : Vocabulary} {handle : Handle}

/-- The symbols and operations that expressions may contain. -/
structure Vocabulary where
  symbol : Handle → Prop
  unary : UnaryOp → Prop
  binary : BinaryOp → Prop

namespace Vocabulary

def all : Vocabulary :=
  ⟨fun _ => True, fun _ => True, fun _ => True⟩

def Allows (vocabulary : Vocabulary) (handle : Handle) : Node → Prop
  | .symbol _ => vocabulary.symbol handle
  | .unary op _ => vocabulary.unary op
  | .binary op _ _ => vocabulary.binary op
  | _ => True

def AllowsOp (vocabulary : Vocabulary) : Opcode → Prop
  | .const => True
  | .unary op => vocabulary.unary op
  | .binary op => vocabulary.binary op

end Vocabulary

namespace Graph

/-- An expression that is put together from allowed nodes. -/
inductive Spelled (graph : Graph) (vocabulary : Vocabulary) : Handle → Prop where
  | intro {handle : Handle} {node : Node} {pattern : Pattern}
      (hasNode : graph.HasNode handle node pattern) (allowed : vocabulary.Allows handle node)
      (operands : ∀ operand ∈ node.operands, Spelled graph vocabulary operand) :
      Spelled graph vocabulary handle

theorem Spelled.allows {node : Node} {pattern : Pattern} (spelled : graph.Spelled vocabulary handle)
    (hasNode : graph.HasNode handle node pattern) :
    vocabulary.Allows handle node ∧
      ∀ operand ∈ node.operands, graph.Spelled vocabulary operand := by
  cases spelled with
  | intro otherNode allowed operands =>
      cases (otherNode.unique hasNode).1
      exact ⟨allowed, operands⟩

theorem Spelled.exists_entry (spelled : graph.Spelled vocabulary handle) :
    ∃ entry, graph.entry? handle = some entry := by
  cases spelled with
  | intro hasNode => exact ⟨_, hasNode.choose_spec.1⟩

theorem Spelled.grow {before after : Graph} (spelled : before.Spelled vocabulary handle)
    (grows : before.Extends after) :
    after.Spelled vocabulary handle := by
  induction spelled with
  | intro hasNode allowed _ ih => exact .intro (grows hasNode) allowed ih

theorem WellFormed.spelled_all (wellFormed : graph.WellFormed) {pattern : Pattern}
    (known : graph.pattern handle = .ok pattern) :
    graph.Spelled .all handle := by
  refine wellFormed.induction (fun handle entry found ih => ?_) known
  refine .intro ⟨entry, found, rfl, rfl⟩ ?_ fun operand member => ?_
  · cases entry.node <;> trivial
  · rcases (wellFormed found).operand_found member with ⟨operandPattern, operandKnown⟩
    exact ih member operandKnown

end Graph

end Autodiff
