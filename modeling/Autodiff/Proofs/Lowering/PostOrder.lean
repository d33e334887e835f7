import Autodiff.Lowering.PostOrder
import Autodiff.Proofs.Outcome

/-!
# What post-order visits

A successful walk visits every root and lists no node twice. The invariant of the walk is that finished nodes are
in the order, entered ones on the stack and fresh ones in neither, so none is entered but unfinished once the
stack is empty.
-/

namespace Autodiff

theorem Handle.eq_of_index {left right : Handle} (same : left.index = right.index) :
    left = right := by
  rcases left
  rcases right
  exact congrArg Handle.mk same

theorem of_getElem?_setIfInBounds {α : Type} {elements : Array α} {index other : Nat} {element found : α}
    (isFound : (elements.setIfInBounds index element)[other]? = some found) :
    index = other ∧ element = found ∨ index ≠ other ∧ elements[other]? = some found := by
  rw [Array.getElem?_setIfInBounds] at isFound
  split at isFound
  · rename_i same
    split at isFound
    · exact .inl ⟨same, Option.some.inj isFound⟩
    · cases isFound
  · rename_i different
    exact .inr ⟨different, isFound⟩

/-- What the marks of a walk record: the finished nodes and the path of those that are being visited. -/
structure WalkTracks (marks : Array Mark) (order path : List Handle) : Prop where
  finished : ∀ ⦃handle : Handle⦄, marks[handle.index]? = some .done → handle ∈ order
  entered : ∀ ⦃handle : Handle⦄, marks[handle.index]? = some .active → handle ∈ path
  fresh : ∀ ⦃handle : Handle⦄, marks[handle.index]? = some .fresh → handle ∉ path ++ order
  distinct : (path ++ order).Nodup

namespace WalkTracks

variable {marks : Array Mark} {order path : List Handle} {node : Handle}

theorem start (size : Nat) : WalkTracks (Array.replicate size .fresh) [] [] := by
  refine ⟨?_, ?_, fun _ _ => List.not_mem_nil, .nil⟩ <;>
    · intro handle marked
      simp [Array.getElem?_replicate] at marked

theorem finish (tracks : WalkTracks marks order (node :: path)) :
    WalkTracks (marks.setIfInBounds node.index .done) (node :: order) path where
  finished handle isDone := by
    rcases of_getElem?_setIfInBounds isDone with ⟨same, _⟩ | ⟨_, isDone⟩
    · exact Handle.eq_of_index same ▸ List.mem_cons_self ..
    · exact List.mem_cons_of_mem _ (tracks.finished isDone)
  entered handle isActive := by
    rcases of_getElem?_setIfInBounds isActive with ⟨_, impossible⟩ | ⟨different, isActive⟩
    · cases impossible
    · rcases List.mem_cons.mp (tracks.entered isActive) with rfl | below
      · exact absurd rfl different
      · exact below
  fresh handle isFresh := by
    rcases of_getElem?_setIfInBounds isFresh with ⟨_, impossible⟩ | ⟨_, isFresh⟩
    · cases impossible
    · exact List.perm_middle.mem_iff.not.mpr (tracks.fresh isFresh)
  distinct := List.perm_middle.nodup_iff.mpr tracks.distinct

theorem enter (tracks : WalkTracks marks order path) (isFresh : marks[node.index]? = some .fresh) :
    WalkTracks (marks.setIfInBounds node.index .active) order (node :: path) where
  finished handle isDone := by
    rcases of_getElem?_setIfInBounds isDone with ⟨_, impossible⟩ | ⟨_, isDone⟩
    · cases impossible
    · exact tracks.finished isDone
  entered handle isActive := by
    rcases of_getElem?_setIfInBounds isActive with ⟨same, _⟩ | ⟨_, isActive⟩
    · exact Handle.eq_of_index same ▸ List.mem_cons_self ..
    · exact List.mem_cons_of_mem _ (tracks.entered isActive)
  fresh handle isFresh := by
    rcases of_getElem?_setIfInBounds isFresh with ⟨_, impossible⟩ | ⟨different, isFresh⟩
    · cases impossible
    · refine List.not_mem_cons_of_ne_of_not_mem ?_ (tracks.fresh isFresh)
      rintro rfl
      exact different rfl
  distinct := List.nodup_cons.mpr ⟨tracks.fresh isFresh, tracks.distinct⟩

theorem walk {graph : Graph} {stack : List Frame} {marks' : Array Mark} {order' : List Handle}
    (tracks : WalkTracks marks order (stack.map Frame.node))
    (walked : Autodiff.walk graph marks order stack = .ok (marks', order')) :
    WalkTracks marks' order' [] ∧ stack.map Frame.node ++ order ⊆ order' := by
  fun_induction Autodiff.walk graph marks order stack with
  | case1 marks order =>
      cases walked
      exact ⟨tracks, List.Subset.refl _⟩
  | case2 marks order node stack ih =>
      rcases ih tracks.finish walked with ⟨final, keeps⟩
      exact ⟨final, List.Subset.trans List.perm_middle.symm.subset keeps⟩
  | case3 marks order node operand pending stack entry isDone isEntry ih => exact ih tracks walked
  | case4 => cases walked
  | case5 marks order node operand pending stack entry isFresh isEntry ih =>
      rcases ih (tracks.enter isFresh) walked with ⟨final, keeps⟩
      exact ⟨final, List.Subset.trans (List.subset_cons_self ..) keeps⟩
  | case6 => cases walked

end WalkTracks

theorem walkRoots_spec {graph : Graph} {marks : Array Mark} {order order' : List Handle}
    {roots : List Handle} (tracks : WalkTracks marks order [])
    (walked : walkRoots graph marks order roots = .ok order') :
    order'.Nodup ∧ order ⊆ order' ∧ roots ⊆ order' := by
  induction roots generalizing marks order with
  | nil =>
      cases walked
      exact ⟨tracks.distinct, List.Subset.refl _, List.nil_subset _⟩
  | cons root roots ih =>
      rw [walkRoots] at walked
      split at walked
      · rename_i entry isFresh isEntry
        rcases bind_eq_ok.mp walked with ⟨⟨marks', between⟩, firstWalked, walked⟩
        rcases (tracks.enter isFresh).walk firstWalked with ⟨middle, keeps⟩
        rcases ih middle walked with ⟨distinct, keepsRest, visitsRest⟩
        have visited := List.cons_subset.mp (List.Subset.trans keeps keepsRest)
        exact ⟨distinct, visited.2, List.cons_subset.mpr ⟨visited.1, visitsRest⟩⟩
      · rename_i mark entry notFresh isMarked isEntry
        rcases ih tracks walked with ⟨distinct, keepsRest, visitsRest⟩
        refine ⟨distinct, keepsRest, List.cons_subset.mpr ⟨?_, visitsRest⟩⟩
        -- No root is entered but unfinished, because the stack is empty.
        cases mark with
        | fresh => exact (notFresh rfl).elim
        | active => cases tracks.entered isMarked
        | done => exact keepsRest (tracks.finished isMarked)
      · cases walked

theorem Graph.postOrder_spec {graph : Graph} {roots order : List Handle}
    (ordered : graph.postOrder roots = .ok order) : order.Nodup ∧ roots ⊆ order := by
  rcases bind_eq_ok.mp ordered with ⟨reversed, walked, same⟩
  cases same
  rcases walkRoots_spec (.start graph.size) walked with ⟨distinct, _, visited⟩
  have same := List.reverse_perm reversed
  exact ⟨same.nodup_iff.mpr distinct, List.Subset.trans visited same.symm.subset⟩

end Autodiff
