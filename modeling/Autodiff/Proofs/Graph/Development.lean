import Autodiff.Proofs.Graph.Bookkeeping

/-!
# What later graphs still answer

Whatever is done with a graph, its nodes keep their handles, operations and patterns, its table still leads to
them and its symbols keep their names. So every question that could be answered once has the same answer later.
-/

namespace Autodiff

variable {handle : Handle}

namespace Graph

theorem check_eq_ok {graph : Graph} : graph.check handle = .ok () ↔ handle.index < graph.size := by
  simp [check, contains]

/-- The second graph knows all that the first one knows. -/
structure Develops (before after : Graph) : Prop where
  nodes : before.Extends after
  interned : ∀ ⦃node : Node⦄ ⦃handle : Handle⦄, before.interned[node]? = some handle →
    after.interned[node]? = some handle
  names : ∀ ⦃handle : Handle⦄ ⦃node : Node⦄ ⦃pattern : Pattern⦄, before.HasNode handle node pattern →
    after.symbolName? node = before.symbolName? node

namespace Develops

variable {before between after : Graph}

theorem refl (graph : Graph) : graph.Develops graph :=
  ⟨.refl graph, fun _ _ found => found, fun _ _ _ _ => rfl⟩

theorem trans (first : before.Develops between) (second : between.Develops after) : before.Develops after where
  nodes := first.nodes.trans second.nodes
  interned _ _ found := second.interned (first.interned found)
  names _ _ _ hasNode := (second.names (first.nodes hasNode)).trans (first.names hasNode)

theorem insert (graph : Graph) (node : Node) (pattern : Pattern) :
    graph.Develops (graph.insert node pattern).2 := by
  refine ⟨graph.extends_insert node pattern, fun other handle found => ?_, fun handle other known _ => ?_⟩
  · cases isInterned : graph.interned[node]? with
    | some known => rwa [Graph.insert, isInterned]
    | none =>
        have different : node ≠ other := by
          rintro rfl
          cases isInterned.symm.trans found
        simpa [insert_of_absent pattern isInterned, Std.HashMap.getElem?_insert, different] using found
  · cases isInterned : graph.interned[node]? with
    | some known => rw [Graph.insert, isInterned]
    | none => rw [insert_of_absent pattern isInterned]; rfl

theorem interned_insert (graph : Graph) (node : Node) (pattern : Pattern) :
    (graph.insert node pattern).2.interned[node]? = some (graph.insert node pattern).1 := by
  cases isInterned : graph.interned[node]? with
  | some known => simp [Graph.insert, isInterned]
  | none => simp [Graph.insert, isInterned, append]

variable (develops : before.Develops after)
include develops

theorem entry {entry : Entry} (found : before.entry handle = .ok entry) :
    ∃ later, after.entry handle = .ok later ∧ later.node = entry.node ∧ later.pattern = entry.pattern := by
  rcases develops.nodes ⟨entry, entry_eq_ok.mp found, rfl, rfl⟩ with ⟨later, isLater, same⟩
  exact ⟨later, entry_eq_ok.mpr isLater, same⟩

theorem pattern {known : Pattern} (found : before.pattern handle = .ok known) :
    after.pattern handle = .ok known :=
  develops.nodes.pattern found

theorem literal? {value : Option Float} (found : before.literal? handle = .ok value) :
    after.literal? handle = .ok value := by
  rcases bind_eq_ok.mp found with ⟨entry, isEntry, answer⟩
  rcases develops.entry isEntry with ⟨later, isLater, sameNode, _⟩
  exact bind_eq_ok.mpr ⟨later, isLater, sameNode ▸ answer⟩

theorem isLiteral {value : Float} {answer : Bool} (found : before.isLiteral handle value = .ok answer) :
    after.isLiteral handle value = .ok answer := by
  rcases bind_eq_ok.mp found with ⟨literal, isLiteral, answered⟩
  exact bind_eq_ok.mpr ⟨literal, develops.literal? isLiteral, answered⟩

theorem size_le : before.size ≤ after.size := by
  by_contra smaller
  rw [Nat.not_le] at smaller
  have inside : after.size < before.entries.size := smaller
  have known : before.HasNode ⟨after.size⟩ before.entries[after.size].node before.entries[after.size].pattern :=
    ⟨_, Array.getElem?_eq_getElem inside, rfl, rfl⟩
  rcases develops.nodes known with ⟨later, isLater, _⟩
  exact Nat.lt_irrefl _ (Array.getElem?_eq_some_iff.mp isLater).1

theorem check (found : before.check handle = .ok ()) :
    after.check handle = .ok () := by
  rw [check_eq_ok] at found ⊢
  exact Nat.lt_of_lt_of_le found develops.size_le

end Develops

theorem lasts_develops (start : Graph) : Lasts fun graph => graph.Tidy ∧ start.Develops graph where
  insert graph node pattern holds derived canonical :=
    ⟨holds.1.insert derived canonical, holds.2.trans (.insert graph node pattern)⟩
  symbol graph name pattern holds wellFormed := by
    refine ⟨holds.1.appendSymbol name wellFormed, holds.2.trans ?_⟩
    refine ⟨graph.extends_appendSymbol name pattern, fun _ _ found => found, ?_⟩
    intro handle node known hasNode
    cases node with
    | symbol index =>
        rcases hasNode with ⟨entry, found, isSymbol, _⟩
        have named := holds.1.named (List.mem_of_getElem? (getElem?_nodes.mpr ⟨entry, found, isSymbol⟩))
        simp [symbolName?, appendSymbol, append, Array.getElem?_push, named.ne]
    | constant | zeros | unary | binary | concat | transpose | nonzero => rfl

end Graph

end Autodiff
