import Autodiff.Proofs.Graph.Reachable
import Autodiff.Proofs.Lowering.PostOrder
import Mathlib.Logic.Relation

/-!
# Post-order never fails on a well-formed graph

Operands come before their readers in a well-formed graph, so the nodes on the stack of a walk descend. An
operand that is still to visit lies below all of them and cannot be on the stack: there is no cycle to report.
When a node is finished all its operands are finished. The step lemmas say that finishing a node and entering a
fresh one keep these facts (`WalkSafe`) and that a frame accounts for the operands of its node (`Frame.Accounts`);
the walk is an induction over its own recursion.
-/

namespace Autodiff

namespace Graph

def HasOperand (graph : Graph) (reader operand : Handle) : Prop :=
  ∃ entry, graph.entry? reader = some entry ∧ operand ∈ entry.node.operands

/-- One node is another one or among what it is put together from. -/
def Reaches (graph : Graph) : Handle → Handle → Prop :=
  Relation.ReflTransGen graph.HasOperand

/-- All operands of a node come after it. The finished nodes of a walk, last first, are in such an order. -/
def Settled (graph : Graph) : List Handle → Prop
  | [] => True
  | node :: order => (∀ operand, graph.HasOperand node operand → operand ∈ order) ∧ graph.Settled order

variable {graph : Graph} {handle reader operand : Handle}

theorem contains_iff : graph.contains handle ↔ ∃ entry, graph.entry? handle = some entry := by
  constructor
  · intro inside
    exact ⟨_, Array.getElem?_eq_getElem (of_decide_eq_true inside)⟩
  · rintro ⟨entry, found⟩
    exact decide_eq_true (Array.getElem?_eq_some_iff.mp found).1

theorem WellFormed.index_lt_of_hasOperand (wellFormed : graph.WellFormed) (reads : graph.HasOperand reader operand) :
    operand.index < reader.index := by
  rcases reads with ⟨entry, found, member⟩
  exact (wellFormed found).below operand member

theorem WellFormed.entry?_of_hasOperand (wellFormed : graph.WellFormed) (reads : graph.HasOperand reader operand) :
    ∃ entry, graph.entry? operand = some entry := by
  rcases reads with ⟨_, found, member⟩
  rcases (wellFormed found).operand_found member with ⟨_, known⟩
  rcases pattern_eq_ok.mp known with ⟨entry, isEntry, _⟩
  exact ⟨entry, isEntry⟩

theorem Settled.mem_of_append {first rest : List Handle} (settled : graph.Settled (first ++ reader :: rest))
    (reads : graph.HasOperand reader operand) : operand ∈ rest := by
  induction first with
  | nil => exact settled.1 operand reads
  | cons _ _ ih => exact ih settled.2

theorem Settled.mem_of_reaches {order : List Handle} (settled : graph.Settled order) (member : reader ∈ order)
    (reaches : graph.Reaches reader handle) : handle ∈ order := by
  induction reaches with
  | refl => exact member
  | tail _ reads isMember =>
      rcases List.append_of_mem isMember with ⟨first, rest, rfl⟩
      exact List.mem_append_right _ (List.mem_cons_of_mem _ (settled.mem_of_append reads))

end Graph

variable {graph : Graph}

/-- A frame has operands of its node to visit, and every operand is among them or was visited. -/
structure Frame.Accounts (graph : Graph) (visited : List Handle) (frame : Frame) : Prop where
  reads : ∀ operand ∈ frame.pending, graph.HasOperand frame.node operand
  visits : ∀ operand, graph.HasOperand frame.node operand → operand ∈ frame.pending ∨ operand ∈ visited

namespace Frame.Accounts

variable {visited : List Handle} {node operand : Handle}

theorem start {entry : Entry} (isEntry : graph.entry? node = some entry) :
    Accounts graph visited ⟨node, entry.node.operands⟩ := by
  refine ⟨fun operand member => ⟨entry, isEntry, member⟩, ?_⟩
  rintro operand ⟨known, isKnown, isOperand⟩
  cases Option.some.inj (isEntry.symm.trans isKnown)
  exact .inl isOperand

theorem mono {frame : Frame} (accounts : frame.Accounts graph visited) {more : List Handle} (keeps : visited ⊆ more) :
    frame.Accounts graph more :=
  ⟨accounts.reads, fun operand reads => (accounts.visits operand reads).imp_right (@keeps operand)⟩

theorem next {pending : List Handle} (accounts : Accounts graph visited ⟨node, operand :: pending⟩)
    (isVisited : operand ∈ visited) : Accounts graph visited ⟨node, pending⟩ := by
  refine ⟨(List.forall_mem_cons.mp accounts.reads).2, fun other reads => ?_⟩
  rcases accounts.visits other reads with isPending | isVisited
  · exact (List.mem_cons.mp isPending).elim (fun same => .inr (same ▸ isVisited)) .inl
  · exact .inr isVisited

end Frame.Accounts

/-- What a walk from given roots keeps up in a well-formed graph. -/
structure WalkSafe (graph : Graph) (roots : List Handle) (marks : Array Mark) (order path : List Handle) : Prop
    extends WalkTracks marks order path where
  sized : marks.size = graph.size
  settled : graph.Settled order
  reached : ∀ handle ∈ path ++ order, ∃ root ∈ roots, graph.Reaches root handle
  descending : path.Pairwise fun upper lower => upper.index < lower.index

namespace WalkSafe

variable {roots : List Handle} {marks : Array Mark} {order path : List Handle} {node operand : Handle}

section

variable (safe : WalkSafe graph roots marks order (node :: path)) (wellFormed : graph.WellFormed)
include safe wellFormed

/-- What the end of the path reads lies below the whole path. -/
theorem below_of_hasOperand (reads : graph.HasOperand node operand) :
    ∀ lower ∈ node :: path, operand.index < lower.index := by
  have below := wellFormed.index_lt_of_hasOperand reads
  refine List.forall_mem_cons.mpr ⟨below, fun lower member => ?_⟩
  exact Nat.lt_trans below ((List.pairwise_cons.mp safe.descending).1 lower member)

theorem not_mem_of_hasOperand (reads : graph.HasOperand node operand) : operand ∉ node :: path :=
  fun member => Nat.lt_irrefl _ (safe.below_of_hasOperand wellFormed reads operand member)

theorem finishes (accounts : Frame.Accounts graph (node :: path ++ order) ⟨node, []⟩) :
    WalkSafe graph roots (marks.setIfInBounds node.index .done) (node :: order) path where
  toWalkTracks := safe.finish
  sized := (Array.size_setIfInBounds ..).trans safe.sized
  settled := by
    refine ⟨fun operand reads => ?_, safe.settled⟩
    have isVisited := (accounts.visits operand reads).resolve_left List.not_mem_nil
    exact (List.mem_append.mp isVisited).resolve_left (safe.not_mem_of_hasOperand wellFormed reads)
  reached handle member := safe.reached handle (List.perm_middle.mem_iff.mp member)
  descending := (List.pairwise_cons.mp safe.descending).2

end

theorem enters (safe : WalkSafe graph roots marks order path) (isFresh : marks[node.index]? = some .fresh)
    (reached : ∃ root ∈ roots, graph.Reaches root node) (below : ∀ lower ∈ path, node.index < lower.index) :
    WalkSafe graph roots (marks.setIfInBounds node.index .active) order (node :: path) where
  toWalkTracks := safe.enter isFresh
  sized := (Array.size_setIfInBounds ..).trans safe.sized
  settled := safe.settled
  reached := List.forall_mem_cons.mpr ⟨reached, safe.reached⟩
  descending := List.pairwise_cons.mpr ⟨below, safe.descending⟩

theorem exists_mark (safe : WalkSafe graph roots marks order path) {entry : Entry}
    (isEntry : graph.entry? node = some entry) : ∃ mark, marks[node.index]? = some mark :=
  ⟨_, Array.getElem?_eq_getElem (safe.sized ▸ (Array.getElem?_eq_some_iff.mp isEntry).1)⟩

theorem exists_walk {stack : List Frame} (safe : WalkSafe graph roots marks order (stack.map Frame.node))
    (wellFormed : graph.WellFormed)
    (accounts : ∀ frame ∈ stack, frame.Accounts graph (stack.map Frame.node ++ order)) :
    ∃ marks' order', walk graph marks order stack = .ok (marks', order') ∧
      WalkSafe graph roots marks' order' [] := by
  fun_induction walk graph marks order stack with
  | case1 marks order => exact ⟨marks, order, rfl, safe⟩
  | case2 marks order node stack ih =>
      rcases List.forall_mem_cons.mp accounts with ⟨top, rest⟩
      refine ih (safe.finishes wellFormed top) fun frame member => ?_
      exact (rest frame member).mono List.perm_middle.symm.subset
  | case3 marks order node operand pending stack entry isDone isEntry ih =>
      rcases List.forall_mem_cons.mp accounts with ⟨top, rest⟩
      have isVisited := List.mem_append_right (node :: stack.map Frame.node) (safe.finished isDone)
      exact ih safe (List.forall_mem_cons.mpr ⟨top.next isVisited, rest⟩)
  | case4 marks order node operand pending stack entry isActive isEntry =>
      -- An active operand would be on the path, and it lies below it.
      have reads := (accounts _ (List.mem_cons_self ..)).reads operand (List.mem_cons_self ..)
      exact absurd (safe.entered isActive) (safe.not_mem_of_hasOperand wellFormed reads)
  | case5 marks order node operand pending stack entry isFresh isEntry ih =>
      rcases List.forall_mem_cons.mp accounts with ⟨top, rest⟩
      have reads := top.reads operand (List.mem_cons_self ..)
      rcases safe.reached node (List.mem_cons_self ..) with ⟨root, isRoot, reaches⟩
      have entered := safe.enters isFresh ⟨root, isRoot, reaches.tail reads⟩
        (safe.below_of_hasOperand wellFormed reads)
      -- For the frames below, the operand counts as visited from now on.
      have keeps := List.subset_cons_self operand (node :: stack.map Frame.node ++ order)
      refine ih entered (List.forall_mem_cons.mpr ⟨.start isEntry, List.forall_mem_cons.mpr ⟨?_, ?_⟩⟩)
      · exact (top.mono keeps).next (List.mem_cons_self ..)
      · exact fun frame member => (rest frame member).mono keeps
  | case6 marks order node operand pending stack notDone notActive notFresh =>
      have reads := (accounts _ (List.mem_cons_self ..)).reads operand (List.mem_cons_self ..)
      rcases wellFormed.entry?_of_hasOperand reads with ⟨entry, isEntry⟩
      rcases safe.exists_mark isEntry with ⟨mark, isMark⟩
      cases mark with
      | done => exact (notDone entry isMark isEntry).elim
      | active => exact (notActive entry isMark isEntry).elim
      | fresh => exact (notFresh entry isMark isEntry).elim

end WalkSafe

namespace Graph

variable {roots : List Handle}

theorem WellFormed.exists_walkRoots (wellFormed : graph.WellFormed) {marks : Array Mark} {order later : List Handle}
    (safe : WalkSafe graph roots marks order []) (known : ∀ root ∈ later, graph.contains root) (among : later ⊆ roots) :
    ∃ marks' order', walkRoots graph marks order later = .ok order' ∧ WalkSafe graph roots marks' order' [] := by
  induction later generalizing marks order with
  | nil => exact ⟨marks, order, rfl, safe⟩
  | cons root later ih =>
      rw [List.forall_mem_cons] at known
      rw [List.cons_subset] at among
      rcases contains_iff.mp known.1 with ⟨entry, isEntry⟩
      rcases safe.exists_mark isEntry with ⟨mark, isMark⟩
      rw [walkRoots, isMark, isEntry]
      cases mark with
      | fresh =>
          have entered : WalkSafe graph roots (marks.setIfInBounds root.index .active) order
              ([(⟨root, entry.node.operands⟩ : Frame)].map Frame.node) :=
            safe.enters isMark ⟨root, among.1, .refl⟩ (by simp)
          rcases entered.exists_walk wellFormed (List.forall_mem_singleton.mpr (.start isEntry)) with
            ⟨marks', between, walked, middle⟩
          simp only [walked, ok_bind]
          exact ih middle known.2 among.2
      | active | done => exact ih safe known.2 among.2

/-- Post-order succeeds from known roots and visits what they reach. Every node comes after its operands, which is
stated of the reversed order. -/
theorem WellFormed.exists_postOrder (wellFormed : graph.WellFormed) (known : ∀ root ∈ roots, graph.contains root) :
    ∃ reversed, graph.postOrder roots = .ok reversed.reverse ∧ graph.Settled reversed ∧
      ∀ handle, handle ∈ reversed ↔ ∃ root ∈ roots, graph.Reaches root handle := by
  have start : WalkSafe graph roots (Array.replicate graph.size .fresh) [] [] :=
    ⟨.start graph.size, by simp, trivial, by simp, .nil⟩
  rcases wellFormed.exists_walkRoots start known (List.Subset.refl _) with ⟨marks, reversed, walked, safe⟩
  have ordered : graph.postOrder roots = .ok reversed.reverse := by
    simp only [postOrder, walked, ok_bind]
    rfl
  refine ⟨reversed, ordered, safe.settled, fun handle => ⟨safe.reached handle, ?_⟩⟩
  rintro ⟨root, isRoot, reaches⟩
  exact safe.settled.mem_of_reaches (List.mem_reverse.mp ((postOrder_spec ordered).2 isRoot)) reaches

end Graph

end Autodiff
