import Autodiff.Proofs.Graph.Growth

/-!
# The books of a graph

A graph keeps a table of its nodes and counts their readers. Both are right at all times: the table leads from
every node that is not a symbol to its own handle and knows nothing else, so no node is there twice, and the
count of a node is the number of nodes that have it as an operand. The nodes are in canonical form. All of this
is proved for appending one node (`Tidy.append`) and lasts from there.
-/

namespace Autodiff

/-! ## Counting readers -/

theorem nodup_eraseDups {α : Type} [BEq α] [LawfulBEq α] (elements : List α) : elements.eraseDups.Nodup := by
  cases elements with
  | nil => simp
  | cons first rest =>
      rw [List.eraseDups_cons, List.nodup_cons, List.mem_eraseDups]
      exact ⟨by simp, nodup_eraseDups _⟩
termination_by elements.length
decreasing_by exact Nat.lt_succ_of_le (List.length_filter_le _ _)

theorem count_eraseDups {α : Type} [DecidableEq α] (elements : List α) (element : α) :
    elements.eraseDups.count element = if element ∈ elements then 1 else 0 := by
  split
  · rename_i member
    exact List.count_eq_one_of_mem (nodup_eraseDups _) (List.mem_eraseDups.mpr member)
  · rename_i absent
    exact List.count_eq_zero.mpr fun member => absent (List.mem_eraseDups.mp member)

namespace Graph

theorem getElem?_addReferences_eq (entries : Array Entry) (operands : List Handle) (index : Nat) :
    (addReferences entries operands)[index]? = entries[index]?.map fun entry =>
      { entry with references := entry.references + operands.count ⟨index⟩ } := by
  induction operands generalizing entries with
  | nil => simp [addReferences]
  | cons operand operands ih =>
      refine (ih _).trans ?_
      rw [Array.getElem?_modify]
      by_cases isOperand : operand.index = index
      · cases isOperand
        cases entries[operand.index]? with
        | none => simp
        | some entry => simp [Nat.add_assoc, Nat.add_comm 1]
      · have other : operand ≠ ⟨index⟩ := by
          rintro rfl
          exact isOperand rfl
        simp [isOperand, List.count_cons_of_ne other]

def nodes (graph : Graph) : List Node :=
  graph.entries.toList.map Entry.node

theorem getElem?_nodes {graph : Graph} {index : Nat} {node : Node} :
    graph.nodes[index]? = some node ↔ ∃ entry, graph.entries[index]? = some entry ∧ entry.node = node := by
  simp [nodes]

theorem length_nodes (graph : Graph) : graph.nodes.length = graph.size := by
  simp [nodes, size]

theorem nodes_append (graph : Graph) (node : Node) (pattern : Pattern) :
    (graph.append node pattern).2.nodes = graph.nodes ++ [node] := by
  have kept : (addReferences graph.entries node.operands.eraseDups).toList.map Entry.node = graph.nodes := by
    apply List.ext_getElem?
    intro index
    simp [nodes, getElem?_addReferences_eq, Function.comp_def]
  rw [← kept]
  simp [nodes, append]

/-! ## Graphs in order -/

theorem Canonical.grow {before after : Graph} {node : Node} (canonical : before.Canonical node)
    (grows : before.Extends after) : after.Canonical node := by
  cases node with
  | transpose operand =>
      rcases canonical with ⟨inner, pattern, hasNode, form⟩
      exact ⟨inner, pattern, grows hasNode, form⟩
  | symbol | constant | zeros | unary | binary | concat | nonzero => exact canonical

def numReaders (graph : Graph) (handle : Handle) : Nat :=
  graph.nodes.countP fun node => handle ∈ node.operands

/-- A graph whose table and counts are right. -/
structure Tidy (graph : Graph) : Prop where
  wellFormed : graph.WellFormed
  table : graph.Interned
  interned : ∀ ⦃index : Nat⦄ ⦃node : Node⦄, graph.nodes[index]? = some node → node.isSymbol = false →
    graph.interned[node]? = some ⟨index⟩
  named : ∀ ⦃index : Nat⦄, .symbol index ∈ graph.nodes → index < graph.symbolNames.size
  distinct : graph.nodes.Nodup
  canonical : ∀ node ∈ graph.nodes, graph.Canonical node
  counted : ∀ ⦃index : Nat⦄ ⦃entry : Entry⦄, graph.entries[index]? = some entry →
    entry.references = graph.numReaders ⟨index⟩

theorem tidy_empty : Tidy {} where
  wellFormed _ _ found := by simp at found
  table _ _ found := by simp at found
  interned _ _ found := by simp [nodes] at found
  named _ member := by simp [nodes] at member
  distinct := List.nodup_nil
  canonical _ member := by simp [nodes] at member
  counted _ _ found := by simp at found

namespace Tidy

variable {graph : Graph} {node : Node} {pattern : Pattern}

theorem size_le_of_numReaders (tidy : graph.Tidy) {index : Nat} (outside : graph.size ≤ index) :
    graph.numReaders ⟨index⟩ = 0 := by
  rw [numReaders, List.countP_eq_zero]
  intro reader member isOperand
  rcases List.mem_iff_getElem?.mp member with ⟨position, isReader⟩
  rcases getElem?_nodes.mp isReader with ⟨entry, found, rfl⟩
  have below := (tidy.wellFormed found).below ⟨index⟩ (of_decide_eq_true isOperand)
  have inside := (Array.getElem?_eq_some_iff.mp found).1
  simp only [size] at outside below
  omega

theorem counted_append (tidy : graph.Tidy) (below : ∀ operand ∈ node.operands, operand.index < graph.size)
    {index : Nat} {entry : Entry} (found : (graph.append node pattern).2.entries[index]? = some entry) :
    entry.references = (graph.append node pattern).2.numReaders ⟨index⟩ := by
  have counts : (graph.append node pattern).2.numReaders ⟨index⟩ =
      graph.numReaders ⟨index⟩ + if ⟨index⟩ ∈ node.operands then 1 else 0 := by
    simp [numReaders, nodes_append, List.countP_append, List.countP_singleton]
  rw [counts]
  simp only [append, Array.getElem?_push, size_addReferences] at found
  split at found
  · -- Nobody reads the new node.
    rename_i isNew
    cases found
    have isUnread := tidy.size_le_of_numReaders (le_of_eq isNew.symm)
    have notOperand : (⟨index⟩ : Handle) ∉ node.operands := by
      intro member
      have := below ⟨index⟩ member
      simp only [size] at this
      omega
    simp [isUnread, notOperand]
  · rw [getElem?_addReferences_eq] at found
    rcases Option.map_eq_some_iff.mp found with ⟨old, isOld, rfl⟩
    simp only [tidy.counted isOld, count_eraseDups]

theorem append (tidy : graph.Tidy) (wellFormed : (graph.append node pattern).2.WellFormed)
    (below : ∀ operand ∈ node.operands, operand.index < graph.size) (canonical : graph.Canonical node)
    (isNew : node ∉ graph.nodes) {after : Graph} (entries : after.entries = (graph.append node pattern).2.entries)
    (table : after.Interned)
    (interned : ∀ ⦃index : Nat⦄ ⦃other : Node⦄, (graph.nodes ++ [node])[index]? = some other →
      other.isSymbol = false → after.interned[other]? = some ⟨index⟩)
    (named : ∀ ⦃index : Nat⦄, .symbol index ∈ graph.nodes ++ [node] → index < after.symbolNames.size) :
    after.Tidy := by
  have nodes : after.nodes = graph.nodes ++ [node] := by
    rw [← nodes_append graph node pattern, Graph.nodes, entries, ← Graph.nodes]
  have grows : graph.Extends after := fun _ _ _ hasNode =>
    (hasNode_of_entries entries).mpr (graph.extends_append node pattern hasNode)
  refine ⟨wellFormed.of_entries entries, table, nodes ▸ interned, nodes ▸ named, ?_, ?_, ?_⟩
  · rw [nodes, List.nodup_append]
    refine ⟨tidy.distinct, List.nodup_singleton node, ?_⟩
    rintro first firstMem second secondMem rfl
    rw [List.mem_singleton] at secondMem
    exact isNew (secondMem ▸ firstMem)
  · rw [nodes]
    intro other member
    rcases List.mem_append.mp member with isOld | isLast
    · exact (tidy.canonical other isOld).grow grows
    · rw [List.mem_singleton.mp isLast]
      exact canonical.grow grows
  · intro index entry found
    rw [entries] at found
    rw [tidy.counted_append below found, numReaders, numReaders, nodes, nodes_append]

theorem not_mem_of_absent (tidy : graph.Tidy) (notSymbol : node.isSymbol = false)
    (absent : graph.interned[node]? = none) : node ∉ graph.nodes := by
  intro member
  rcases List.mem_iff_getElem?.mp member with ⟨index, isNode⟩
  cases absent.symm.trans (tidy.interned isNode notSymbol)

theorem insert (tidy : graph.Tidy) (derived : graph.derive node = .ok pattern)
    (canonical : graph.Canonical node) : (graph.insert node pattern).2.Tidy := by
  cases isInterned : graph.interned[node]? with
  | some handle =>
      rw [Graph.insert, isInterned]
      exact tidy
  | none =>
      have notSymbol : node.isSymbol = false := by
        cases node with
        | symbol index => cases derived
        | _ => rfl
      have isNew := tidy.not_mem_of_absent notSymbol isInterned
      have table := tidy.table.insert derived
      have wellFormed := tidy.wellFormed.insert (derived_of_derive derived)
      rw [insert_of_absent pattern isInterned] at table wellFormed ⊢
      refine tidy.append (wellFormed.of_entries rfl) ?_ canonical isNew rfl table ?_ ?_
      · intro operand member
        rcases (derived_of_derive derived).operand_found operand member with ⟨known, found⟩
        rcases pattern_eq_ok.mp found with ⟨entry, isEntry, _⟩
        exact (Array.getElem?_eq_some_iff.mp isEntry).1
      · intro index other isOther otherNotSymbol
        rw [List.getElem?_append] at isOther
        split at isOther
        · have different : node ≠ other := by
            rintro rfl
            exact isNew (List.mem_of_getElem? isOther)
          simpa [Std.HashMap.getElem?_insert, different] using tidy.interned isOther otherNotSymbol
        · rename_i outside
          rcases List.getElem?_eq_some_iff.mp isOther with ⟨inside, isLast⟩
          simp only [List.getElem_singleton] at isLast
          simp only [List.length_singleton] at inside
          have isSize : graph.size = index := by
            rw [← length_nodes]
            omega
          simp [isLast, isSize]
      · intro index member
        rcases List.mem_append.mp member with isOld | isLast
        · exact tidy.named isOld
        · cases List.mem_singleton.mp isLast
          cases notSymbol

theorem appendSymbol (tidy : graph.Tidy) (name : String) (patternWellFormed : pattern.WellFormed) :
    (graph.appendSymbol name pattern).2.Tidy := by
  have wellFormed := lasts_wellFormed.symbol name tidy.wellFormed patternWellFormed
  have isNew : .symbol graph.symbolNames.size ∉ graph.nodes := fun member => (tidy.named member).false
  refine tidy.append (wellFormed.of_entries rfl) (by simp [Node.operands]) trivial isNew rfl
    (lasts_interned.symbol name tidy.table patternWellFormed) ?_ ?_
  · intro index other isOther notSymbol
    rw [List.getElem?_append] at isOther
    split at isOther
    · exact tidy.interned isOther notSymbol
    · cases List.mem_singleton.mp (List.mem_of_getElem? isOther)
      cases notSymbol
  · intro index member
    have grown : (graph.appendSymbol name pattern).2.symbolNames.size = graph.symbolNames.size + 1 := by
      simp [Graph.appendSymbol, Graph.append]
    rcases List.mem_append.mp member with isOld | isLast
    · have := tidy.named isOld
      omega
    · cases List.mem_singleton.mp isLast
      omega

end Tidy

theorem lasts_tidy : Lasts Tidy where
  insert _ _ _ tidy derived canonical := tidy.insert derived canonical
  symbol _ name _ tidy wellFormed := tidy.appendSymbol name wellFormed

/-! ## Graphs that persist -/

/-- Nodes keep their handles and their patterns and never lose a reader. -/
def Persists (before after : Graph) : Prop :=
  ∀ ⦃index : Nat⦄ ⦃entry : Entry⦄, before.entries[index]? = some entry → ∃ later,
    after.entries[index]? = some later ∧ later.node = entry.node ∧ later.pattern = entry.pattern ∧
      entry.references ≤ later.references

theorem Persists.refl (graph : Graph) : graph.Persists graph :=
  fun _ entry found => ⟨entry, found, rfl, rfl, le_rfl⟩

theorem Persists.trans {before between after : Graph} (first : before.Persists between)
    (second : between.Persists after) : before.Persists after := by
  intro index entry found
  rcases first found with ⟨middle, isMiddle, sameNode, samePattern, atLeast⟩
  rcases second isMiddle with ⟨later, isLater, laterNode, laterPattern, laterAtLeast⟩
  exact ⟨later, isLater, laterNode.trans sameNode, laterPattern.trans samePattern, atLeast.trans laterAtLeast⟩

theorem persists_append (graph : Graph) (node : Node) (pattern : Pattern) :
    graph.Persists (graph.append node pattern).2 := by
  intro index entry found
  have inside := (Array.getElem?_eq_some_iff.mp found).1
  let later : Entry := { entry with references := entry.references + node.operands.eraseDups.count ⟨index⟩ }
  refine ⟨later, ?_, rfl, rfl, Nat.le_add_right ..⟩
  rw [append, Array.getElem?_push, size_addReferences, if_neg inside.ne, getElem?_addReferences_eq, found]
  rfl

theorem lasts_persists (start : Graph) : Lasts start.Persists where
  insert graph node pattern persists _ _ := by
    refine persists.trans ?_
    rw [insert]
    split
    · exact .refl graph
    · exact persists_append graph node pattern
  symbol graph name pattern persists _ :=
    persists.trans (persists_append { graph with symbolNames := graph.symbolNames.push name } _ pattern)

end Graph

end Autodiff
