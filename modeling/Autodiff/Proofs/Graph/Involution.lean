import Autodiff.Proofs.Pattern.Placement
import Autodiff.Proofs.Symbolic.NormalForm

/-!
# Transposing twice

Patterns and nodes come back from being transposed twice: a pattern because no other pattern stores its positions, a
node because no transpose has a transpose or a 1x1 node as operand, and every transpose is in the table.
-/

namespace Autodiff

namespace Graph

variable {graph : Graph} {handle : Handle} {node : Node} {pattern : Pattern}

/-! ## One call -/

theorem HasNode.run_transpose_inner {inner : Handle} (hasNode : graph.HasNode handle (.transpose inner) pattern) :
    (GraphM.transpose handle).run.run graph = (.ok inner, graph) := by
  rcases hasNode with ⟨⟨_, _, references⟩, found, rfl, rfl⟩
  have looked : (do (← get).entry handle : GraphM Entry).run.run graph = _ :=
    GraphM.run_lift_of_ok (entry_eq_ok.mpr found) graph
  exact GraphM.run_bind_of_ok looked _

theorem HasNode.run_transpose (hasNode : graph.HasNode handle node pattern)
    (notTranspose : ∀ inner, node ≠ .transpose inner) : (GraphM.transpose handle).run.run graph =
      if pattern.isScalar then (.ok handle, graph) else (GraphM.add (.transpose handle)).run.run graph := by
  rcases hasNode with ⟨⟨node, pattern, references⟩, found, rfl, rfl⟩
  have looked : (do (← get).entry handle : GraphM Entry).run.run graph = _ :=
    GraphM.run_lift_of_ok (entry_eq_ok.mpr found) graph
  refine (GraphM.run_bind_of_ok looked _).trans ?_
  cases node with
  | transpose inner => exact absurd rfl (notTranspose inner)
  | _ => cases pattern.isScalar <;> rfl

/-! ## Two calls -/

/-- Transposing gives a node whose transpose is the first node, already in the graph. -/
theorem Tidy.run_transpose_twice (tidy : graph.Tidy) (hasNode : graph.HasNode handle node pattern)
    (fits : pattern.nrow + 1 ≤ maxBuffer ∨ ∃ inner, node = .transpose inner) : ∃ transposed after,
      (GraphM.transpose handle).run.run graph = (.ok transposed, after) ∧
      (GraphM.transpose transposed).run.run after = (.ok handle, after) := by
  by_cases isTranspose : ∃ inner, node = .transpose inner
  · rcases isTranspose with ⟨inner, rfl⟩
    rcases tidy.canonical _ (List.mem_of_getElem? hasNode.getElem?_nodes) with
      ⟨innerNode, innerPattern, isInner, notTranspose, notScalar⟩
    refine ⟨inner, graph, hasNode.run_transpose_inner, ?_⟩
    rw [isInner.run_transpose notTranspose, notScalar]
    exact tidy.run_add_of_hasNode hasNode rfl
  · have notTranspose : ∀ inner, node ≠ .transpose inner := fun inner same => isTranspose ⟨inner, same⟩
    have run := hasNode.run_transpose notTranspose
    cases isScalar : pattern.isScalar with
    | true =>
        rw [isScalar] at run
        exact ⟨handle, graph, run, run⟩
    | false =>
        rcases Pattern.exists_transpose (fits.resolve_right isTranspose) with ⟨transposed, isTransposed⟩
        have derived : graph.derive (.transpose handle) = .ok transposed.1 := by
          rw [derive, hasNode.pattern_eq, ok_bind, isTransposed, ok_bind]
          rfl
        rw [isScalar] at run
        exact ⟨_, _, run.trans (GraphM.run_add derived),
          (tidy.table.hasNode_insert derived).run_transpose_inner⟩

/-- Transposing exchanges the coordinates of every stored position and lists where each entry came from, and
transposing again undoes both, for patterns that fit in a buffer either way. Every node of a graph comes back from
being transposed twice, and the second call adds no node, if its rows fit in a buffer or it is a transpose. -/
theorem transpose_involutive :
    (∀ pattern : Pattern, pattern.Storable → pattern.nrow + 1 ≤ maxBuffer → ∃ transposed sources inverse,
      pattern.transpose = .ok (transposed, sources) ∧ pattern.Mirrors transposed sources ∧
      transposed.transpose = .ok (pattern, inverse) ∧
      ∀ index source : Nat, inverse[source]? = some index ↔ sources[index]? = some source) ∧
    ∀ graph : Graph, initial.Evolves graph → ∀ (handle : Handle) (node : Node) (pattern : Pattern),
      graph.HasNode handle node pattern → (pattern.nrow + 1 ≤ maxBuffer ∨ ∃ inner, node = .transpose inner) →
        ∃ transposed after, (GraphM.transpose handle).run.run graph = (.ok transposed, after) ∧
          (GraphM.transpose transposed).run.run after = (.ok handle, after) := by
  constructor
  · intro pattern storable fits
    rcases Pattern.exists_transpose fits with ⟨⟨transposed, sources⟩, derived⟩
    rcases storable.wellFormed.transpose_transpose derived storable.fits with ⟨inverse, again, inverts⟩
    exact ⟨transposed, sources, inverse, derived, storable.wellFormed.mirrors derived, again, inverts⟩
  · intro graph evolves handle node pattern hasNode fits
    exact (evolves.of_lasts lasts_tidy (lasts_tidy.initial tidy_empty)).run_transpose_twice hasNode fits

/-- A pattern with an empty column, and a symbol that has it. -/
theorem gap_transposed_twice :
    let pattern : Pattern := ⟨2, [[0, 1], [], [0]]⟩
    let graph := (GraphM.symbol "x" pattern).graphAfter .initial
    (∃ transposed sources inverse, pattern.transpose = .ok (transposed, sources) ∧
      transposed.transpose = .ok (pattern, inverse)) ∧
    ∃ transposed after, (GraphM.transpose ⟨initial.size⟩).run.run graph = (.ok transposed, after) ∧
      (GraphM.transpose transposed).run.run after = (.ok ⟨initial.size⟩, after) := by
  intro pattern graph
  have storable : pattern.Storable := ⟨by decide, by decide⟩
  have evolves : initial.Evolves graph := .after .refl (.construct (.symbol _ storable.wellFormed))
  rcases transpose_involutive with ⟨patterns, graphs⟩
  constructor
  · rcases patterns pattern storable (by decide) with ⟨transposed, sources, inverse, derived, _, again, _⟩
    exact ⟨transposed, sources, inverse, derived, again⟩
  · exact graphs graph evolves _ _ pattern (hasNode_append ..) (.inl (by decide))

/-- There is no room for the pointers to so many columns. -/
theorem tall_symbol_not_transposed :
    let graph := (GraphM.symbol "x" (.blank maxWord 1)).graphAfter .initial
    initial.Evolves graph ∧ (∃ node, graph.HasNode ⟨initial.size⟩ node (.blank maxWord 1)) ∧
      (GraphM.transpose ⟨initial.size⟩).run.run graph = (.error (.violation .sizeOverflow), graph) := by
  intro graph
  have hasNode : graph.HasNode ⟨initial.size⟩ (.symbol _) (.blank maxWord 1) := hasNode_append ..
  have refused : graph.derive (.transpose ⟨initial.size⟩) = .error (.violation .sizeOverflow) := by
    rw [derive, hasNode.pattern_eq]
    rfl
  refine ⟨.after .refl (.construct (.symbol _ (Pattern.wellFormed_blank maxWord 1))), ⟨_, hasNode⟩, ?_⟩
  rw [hasNode.run_transpose (by simp)]
  have failed : (do (← get).derive (.transpose ⟨initial.size⟩) : GraphM Pattern).run.run graph = _ :=
    GraphM.run_lift (graph.derive _) graph
  rw [refused] at failed
  exact GraphM.run_bind_of_error failed _

end Graph

end Autodiff
