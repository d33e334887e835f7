import Autodiff.Proofs.Graph.Development
import Autodiff.Proofs.Symbolic.Assembly
import Autodiff.Proofs.Symbolic.Operations

/-!
# Handles that are not nodes

The constructors that can fail look for handles that are not nodes of the graph, and report the first one before they
change anything. Two of them do less. Taking all stored entries of a matrix asks for its pattern first, so a foreign
handle is a broken promise there. Putting a matrix together adds nodes while it goes: a zero for the empty positions
and one node for each column. A foreign handle that addresses none of these is reported when its column is put
together, and until then nothing worse than a reported error happens (`Reports`); a handle that addresses one of them
is taken for it.
-/

namespace Autodiff

namespace GraphM

variable {α β : Type} {graph : Graph}

/-- A call reports an error, or returns a value and a graph with a given property. -/
def Reports (graph : Graph) (call : GraphM α) (returns : Graph → α → Prop) : Prop :=
  (∃ cause after, call.run.run graph = (.error (.graph cause), after)) ∨
    ∃ value after, call.run.run graph = (.ok value, after) ∧ returns after value

namespace Reports

variable {call : GraphM α} {returns : Graph → α → Prop}

theorem of_ok {value : α} {after : Graph} (ran : call.run.run graph = (.ok value, after))
    (holds : returns after value) : Reports graph call returns :=
  .inr ⟨value, after, ran, holds⟩

theorem bind {next : α → GraphM β} {property : Graph → β → Prop} (first : Reports graph call returns)
    (second : ∀ after value, returns after value → Reports after (next value) property) :
    Reports graph (call >>= next) property := by
  rcases first with ⟨cause, after, ran⟩ | ⟨value, after, ran, holds⟩
  · exact .inl ⟨cause, after, run_bind_of_error ran next⟩
  · rw [Reports, run_bind_of_ok ran next]
    exact second after value holds

theorem mono {weaker : Graph → α → Prop} (reports : Reports graph call returns)
    (implies : ∀ after value, returns after value → weaker after value) : Reports graph call weaker := by
  rcases reports with reported | ⟨value, after, ran, holds⟩
  · exact .inl reported
  · exact .of_ok ran (implies after value holds)

theorem query_bind {value : α} {next : α → GraphM β} {property : Graph → β → Prop}
    (ran : call.run.run graph = (.ok value, graph)) (rest : Reports graph (next value) property) :
    Reports graph (call >>= next) property := by
  rwa [Reports, run_bind_of_ok ran next]

/-- What one call of a loop does to the results so far, all of them do. -/
theorem mapM_range {step : Nat → GraphM β} {count : Nat} (invariant : Nat → Graph → List β → Prop)
    (start : invariant 0 graph [])
    (each : ∀ number < count, ∀ graph results, invariant number graph results →
      Reports graph (step number) fun after result => invariant (number + 1) after (results ++ [result])) :
    Reports graph ((List.range count).mapM step) (invariant count) := by
  induction count with
  | zero => exact .of_ok rfl start
  | succ count ih =>
      rw [List.range_succ, List.mapM_append]
      apply (ih fun number below => each number (Nat.lt_succ_of_lt below)).bind
      intro after results holds
      simp only [List.mapM_cons, List.mapM_nil, bind_assoc, pure_bind]
      apply (each count (Nat.lt_succ_self count) after results holds).bind
      intro final result resultHolds
      exact .of_ok rfl resultHolds

end Reports

/-! ## Checks -/

theorem run_check_foreign {handle : Handle} (foreign : graph.contains handle = false) :
    (check handle).run.run graph = (.error (.graph (.unknownNode handle)), graph) := by
  refine (run_lift (graph.check handle) graph).trans ?_
  rw [Graph.check, foreign]
  rfl

theorem run_check_node {handle : Handle} (isNode : graph.contains handle) :
    (check handle).run.run graph = (.ok (), graph) :=
  run_lift_of_ok (if_pos isNode) graph

theorem run_forM_check_foreign {handles : List Handle} {foreign : Handle}
    (isFirst : handles.find? (fun handle => !graph.contains handle) = some foreign) :
    (handles.forM check).run.run graph = (.error (.graph (.unknownNode foreign)), graph) := by
  induction handles with
  | nil => cases isFirst
  | cons handle handles ih =>
      rw [List.find?_cons] at isFirst
      cases isNode : graph.contains handle with
      | false =>
          simp only [isNode, Bool.not_false, Option.some.injEq] at isFirst
          cases isFirst
          exact run_bind_of_error (run_check_foreign isNode) _
      | true =>
          simp only [isNode, Bool.not_true] at isFirst
          exact (run_bind_of_ok (run_check_node isNode) _).trans (ih isFirst)

theorem run_binary_foreign (op : BinaryOp) {lhs rhs foreign : Handle}
    (isFirst : [lhs, rhs].find? (fun handle => !graph.contains handle) = some foreign) :
    (binary (.binary op) lhs rhs).run.run graph = (.error (.graph (.unknownNode foreign)), graph) := by
  cases isNode : graph.contains lhs with
  | false =>
      simp only [List.find?_cons, isNode, Bool.not_false, Option.some.injEq] at isFirst
      cases isFirst
      exact run_bind_of_error (run_check_foreign isNode) _
  | true =>
      simp only [List.find?_cons, isNode, Bool.not_true] at isFirst
      refine (run_bind_of_ok (run_check_node isNode) _).trans ?_
      cases rightNode : graph.contains rhs with
      | false =>
          simp only [rightNode, Bool.not_false, Option.some.injEq] at isFirst
          cases isFirst
          exact run_bind_of_error (run_check_foreign rightNode) _
      | true => simp [rightNode] at isFirst

theorem run_nonzeros_foreign {operand : Handle} (isForeign : graph.contains operand = false) :
    (nonzeros operand).run.run graph = (.error (.violation (.foreignHandle operand)), graph) := by
  have absent : graph.entry? operand = none :=
    Array.getElem?_eq_none (Nat.le_of_not_lt (of_decide_eq_false isForeign))
  have unknown : graph.pattern operand = .error (.violation (.foreignHandle operand)) := by
    rw [Graph.pattern, Graph.entry, absent]
    rfl
  exact run_bind_of_error ((run_lift _ graph).trans (congrArg (·, graph) unknown)) _

end GraphM

namespace Graph

variable {start graph : Graph} {limit : Nat}

/-! ## Growth with a limit -/

theorem contains_iff_known {handle : Handle} :
    graph.contains handle ↔ ∃ pattern, graph.pattern handle = .ok pattern := by
  constructor
  · intro isNode
    have inside : handle.index < graph.entries.size := of_decide_eq_true isNode
    exact ⟨_, pattern_eq_ok.mpr ⟨_, Array.getElem?_eq_getElem inside, rfl⟩⟩
  · rintro ⟨pattern, known⟩
    rcases pattern_eq_ok.mp known with ⟨entry, found, _⟩
    exact decide_eq_true (Array.getElem?_eq_some_iff.mp found).1

theorem size_insert_le (graph : Graph) (node : Node) (pattern : Pattern) :
    (graph.insert node pattern).2.size ≤ graph.size + 1 := by
  cases found : graph.interned[node]? with
  | some handle => simp [Graph.insert, found]
  | none => simp [insert_of_absent pattern found, size, size_addReferences]

/-- A graph that has grown from another one, not beyond a limit. If a 1x1 zero is not yet there, there is room for
it. -/
structure Grown (start : Graph) (limit : Nat) (graph : Graph) : Prop where
  sound : graph.Sound
  grows : start.Extends graph
  size_le : graph.size ≤ limit
  room : graph.interned[Node.zeros 1 1]? = none → graph.size < limit

namespace Grown

theorem refl (sound : start.Sound) : start.Grown (start.size + 1) start :=
  ⟨sound, .refl start, Nat.le_succ _, fun _ => Nat.lt_succ_self _⟩

variable (grown : start.Grown limit graph)
include grown

theorem insert {node : Node} {pattern : Pattern} (derived : graph.derive node = .ok pattern) :
    start.Grown (limit + 1) (graph.insert node pattern).2 := by
  have size_le := size_insert_le graph node pattern
  have fits := grown.size_le
  refine ⟨grown.sound.insert derived, grown.grows.trans (graph.extends_insert node pattern), by omega, ?_⟩
  intro absent
  have absentBefore : graph.interned[Node.zeros 1 1]? = none := by
    cases found : graph.interned[Node.zeros 1 1]? with
    | none => rfl
    | some handle => cases absent.symm.trans ((Develops.insert graph node pattern).interned found)
  have room := grown.room absentBefore
  omega

theorem weaken : start.Grown (limit + 1) graph :=
  ⟨grown.sound, grown.grows, Nat.le_succ_of_le grown.size_le, fun _ => Nat.lt_succ_of_le grown.size_le⟩

theorem insert_zero {pattern : Pattern} (derived : graph.derive (.zeros 1 1) = .ok pattern) :
    start.Grown limit (graph.insert (.zeros 1 1) pattern).2 := by
  refine ⟨grown.sound.insert derived, grown.grows.trans (graph.extends_insert _ pattern), ?_, ?_⟩
  · cases found : graph.interned[Node.zeros 1 1]? with
    | some handle =>
        rw [Graph.insert, found]
        exact grown.size_le
    | none => exact Nat.le_trans (size_insert_le graph _ pattern) (grown.room found)
  · intro absent
    cases absent.symm.trans (Develops.interned_insert graph _ pattern)

end Grown

end Graph

theorem Pattern.vertcat_reports {parts : List Pattern} (fits : total (parts.map nrow) ≤ maxWord) :
    (∃ combined, concat .vertical parts = .ok combined) ∨ ∃ cause, concat .vertical parts = .error (.graph cause) := by
  simp only [concat, vertcat]
  split
  · exact .inr ⟨_, rfl⟩
  · simp only [requireWord, if_pos fits]
    exact .inl ⟨_, rfl⟩

namespace Graph

/-! ## Putting together -/

section Assembling

variable {start graph : Graph} {limit : Nat} {pattern : Pattern} {entries : List Handle}

/-- What stands at a position of an assembled matrix: the entry that the pattern stores there, or a 1x1 zero. -/
structure Fills (graph : Graph) (pattern : Pattern) (entries : List Handle) (column : Nat) (cell : Handle)
    (row : Nat) : Prop where
  stored : ∀ ⦃index : Nat⦄, pattern.nonzero? row column = some index → entries[index]? = some cell
  absent : pattern.nonzero? row column = none → graph.pattern cell = .ok (.blank 1 1)

/-- Foreign entries address no node that assembling adds, and the other entries are not too tall to be stacked. -/
structure KeepsApart (graph : Graph) (pattern : Pattern) (entries : List Handle) : Prop where
  wellFormed : pattern.WellFormed
  fits : pattern.nrow ≤ maxBuffer
  far : ∀ entry ∈ entries, graph.contains entry ∨ graph.size + pattern.ncol ≤ entry.index
  heights : ∀ entry ∈ entries, ∀ known, graph.pattern entry = .ok known → pattern.nrow * known.nrow ≤ maxWord

namespace Grown

theorem reports_assembleCell (grown : start.Grown limit graph) (sameLength : entries.length = pattern.nnz)
    (row column : Nat) :
    GraphM.Reports graph (GraphM.assembleCell pattern entries.toArray row column) fun after cell =>
      start.Grown limit after ∧ graph.Extends after ∧ after.Fills pattern entries column cell row := by
  rw [GraphM.assembleCell]
  cases found : pattern.nonzero? row column with
  | none =>
      have derived : graph.derive (.zeros 1 1) = .ok (.blank 1 1) := rfl
      refine .of_ok (GraphM.run_add derived) ⟨grown.insert_zero derived, graph.extends_insert _ _, ?_, ?_⟩
      · intro index isStored
        cases found.symm.trans isStored
      · exact fun _ => (grown.sound.interned.hasNode_insert derived).pattern_eq
  | some index =>
      have isPosition := Pattern.getElem?_positions_of_nonzero? found
      have inside : index < entries.length := sameLength ▸ Pattern.lt_nnz_of_getElem? isPosition
      have isEntry := List.getElem?_eq_getElem inside
      simp only [List.getElem?_toArray, isEntry]
      refine .of_ok rfl ⟨grown, .refl graph, ?_, ?_⟩
      · intro other isStored
        cases found.symm.trans isStored
        exact isEntry
      · intro isAbsent
        cases found.symm.trans isAbsent

theorem reports_cells (grown : start.Grown limit graph) (sameLength : entries.length = pattern.nnz) (column : Nat) :
    GraphM.Reports graph
      ((List.range pattern.nrow).mapM fun row => GraphM.assembleCell pattern entries.toArray row column)
      fun after cells => start.Grown limit after ∧
        List.Forall₂ (after.Fills pattern entries column) cells (List.range pattern.nrow) := by
  apply GraphM.Reports.mapM_range fun number after cells => start.Grown limit after ∧
    List.Forall₂ (after.Fills pattern entries column) cells (List.range number)
  · exact ⟨grown, .nil⟩
  · rintro row _ before cells ⟨grownBefore, filled⟩
    apply (grownBefore.reports_assembleCell sameLength row column).mono
    rintro after cell ⟨grownAfter, grows, fills⟩
    rw [List.range_succ]
    refine ⟨grownAfter, List.rel_append ?_ (.cons fills .nil)⟩
    exact filled.imp fun cell row each => ⟨each.stored, fun absent => grows.pattern (each.absent absent)⟩

theorem reports_add (grown : start.Grown limit graph) {node : Node}
    (derives : (∃ pattern, graph.derive node = .ok pattern) ∨ ∃ cause, graph.derive node = .error (.graph cause)) :
    GraphM.Reports graph (GraphM.add node) fun after _ => start.Grown (limit + 1) after := by
  rcases derives with ⟨pattern, derived⟩ | ⟨cause, failed⟩
  · exact .of_ok (GraphM.run_add derived) (grown.insert derived)
  · refine .inl ⟨cause, graph, ?_⟩
    exact GraphM.run_bind_of_error ((GraphM.run_lift _ graph).trans (congrArg (·, graph) failed)) _

/-- Stacking reports a foreign cell; other cells it stacks unless they differ in width. -/
theorem reports_stack (grown : start.Grown limit graph) {cells : List Handle} (nonempty : cells ≠ [])
    (heights : ∀ cell ∈ cells, ∀ known, graph.pattern cell = .ok known → cells.length * known.nrow ≤ maxWord) :
    GraphM.Reports graph (GraphM.concat .vertical cells) fun after _ =>
      start.Grown (limit + 1) after ∧ ∀ cell ∈ cells, graph.contains cell := by
  cases isFirst : cells.find? fun cell => !graph.contains cell with
  | some foreign =>
      exact .inl ⟨_, graph, GraphM.run_bind_of_error (GraphM.run_forM_check_foreign isFirst) _⟩
  | none =>
      have nodes : ∀ cell ∈ cells, graph.contains cell := by simpa using List.find?_eq_none.mp isFirst
      rcases exists_mapM_iff.mpr fun cell member => contains_iff_known.mp (nodes cell member) with ⟨patterns, found⟩
      have known := mapM_eq_ok.mp found
      have fits : total (patterns.map Pattern.nrow) ≤ maxWord := by
        have each : ∀ height ∈ patterns.map Pattern.nrow, height ≤ maxWord / cells.length := by
          intro height isHeight
          rcases List.mem_map.mp isHeight with ⟨pattern, member, rfl⟩
          rcases exists_related known.flip member with ⟨cell, isCell, isKnown⟩
          rw [Nat.le_div_iff_mul_le (List.length_pos_of_ne_nil nonempty), Nat.mul_comm]
          exact heights cell isCell pattern isKnown
        have bounded := List.sum_le_card_nsmul _ _ each
        rw [List.length_map, ← known.length_eq, smul_eq_mul] at bounded
        exact bounded.trans (Nat.mul_div_le ..)
      refine .query_bind (GraphM.run_forM fun cell member => GraphM.run_check_node (nodes cell member)) ?_
      rcases cells with _ | ⟨first, _ | ⟨second, rest⟩⟩
      · exact absurd rfl nonempty
      · exact .of_ok rfl ⟨grown.weaken, nodes⟩
      · apply (grown.reports_add ?_).mono fun _ _ grownAfter => ⟨grownAfter, nodes⟩
        rcases Pattern.vertcat_reports fits with ⟨combined, concatenated⟩ | ⟨cause, failed⟩
        · exact .inl ⟨_, bind_eq_ok.mpr ⟨patterns, found, bind_eq_ok.mpr ⟨combined, concatenated, rfl⟩⟩⟩
        · refine .inr ⟨cause, ?_⟩
          rw [derive, found, ok_bind, failed]
          rfl

theorem reports_assembleColumn (apart : start.KeepsApart pattern entries) (sameLength : entries.length = pattern.nnz)
    (positive : 0 < pattern.nrow) {column : Nat} (inside : column < pattern.ncol)
    (grown : start.Grown (start.size + 1 + column) graph) :
    GraphM.Reports graph (GraphM.assembleColumn pattern entries.toArray column) fun after _ =>
      start.Grown (start.size + 1 + (column + 1)) after ∧ ∀ ⦃row index entry⦄, row < pattern.nrow →
        pattern.nonzero? row column = some index → entries[index]? = some entry → start.contains entry := by
  -- A node of the graph so far is no far entry.
  have ofNode : ∀ {graph : Graph} {entry : Handle}, start.Grown (start.size + 1 + column) graph → entry ∈ entries →
      graph.contains entry → start.contains entry := by
    intro graph entry grown member isNode
    have below : entry.index < graph.size := of_decide_eq_true isNode
    have bounded := grown.size_le
    rcases apart.far entry member with isNode | far
    · exact isNode
    · omega
  refine .query_bind (GraphM.run_lift_of_ok (if_pos apart.fits) graph) ?_
  apply (grown.reports_cells sameLength column).bind
  rintro between cells ⟨grownBetween, fills⟩
  have sameCount : cells.length = pattern.nrow := by simpa using fills.length_eq
  have nonempty : cells ≠ [] := by
    rintro rfl
    simp at sameCount
    omega
  simp only [positive.ne', if_false]
  have stacked := grownBetween.reports_stack nonempty (by
    intro cell member known isKnown
    rw [sameCount]
    rcases exists_related fills member with ⟨row, _, filled⟩
    cases found : pattern.nonzero? row column with
    | none =>
        cases (filled.absent found).symm.trans isKnown
        exact (Nat.mul_one _).trans_le (apart.fits.trans (by decide))
    | some index =>
        have isEntry := List.mem_of_getElem? (filled.stored found)
        have isNode := ofNode grownBetween isEntry (contains_iff_known.mpr ⟨known, isKnown⟩)
        rcases contains_iff_known.mp isNode with ⟨same, isSame⟩
        cases isKnown.symm.trans (grownBetween.grows.pattern isSame)
        exact apart.heights cell isEntry known isSame)
  apply stacked.mono
  rintro after _ ⟨grownAfter, nodes⟩
  refine ⟨grownAfter, fun row index entry rowInside found isEntry => ?_⟩
  rcases forall₂_getElem? fills.flip (List.getElem?_range rowInside) with ⟨cell, isCell, filled⟩
  cases isEntry.symm.trans (filled.stored found)
  exact ofNode grownBetween (List.mem_of_getElem? isEntry) (nodes entry (List.mem_of_getElem? isCell))

end Grown

theorem KeepsApart.assemble_fails (apart : graph.KeepsApart pattern entries) (sound : graph.Sound)
    (foreign : ∃ entry ∈ entries, graph.contains entry = false) :
    ∃ cause after, (GraphM.assemble pattern entries).run.run graph = (.error (.graph cause), after) := by
  rcases foreign with ⟨foreign, member, isForeign⟩
  rw [GraphM.assemble]
  by_cases sameLength : entries.length = pattern.nnz
  · rcases List.mem_iff_getElem?.mp member with ⟨index, isEntry⟩
    have inside : index < pattern.positions.length := by
      rw [pattern.length_positions, ← sameLength]
      exact (List.getElem?_eq_some_iff.mp isEntry).1
    rcases isPosition : pattern.positions[index] with ⟨row, last⟩
    have found : pattern.positions[index]? = some (row, last) := by
      rw [List.getElem?_eq_getElem inside, isPosition]
    have bounds := apart.wellFormed.lt_of_mem (List.mem_of_getElem? found)
    simp only [sameLength, ne_eq, not_true_eq_false, if_false]
    -- The columns before that of the foreign entry may be put together, this one is not.
    have columns : GraphM.Reports graph
        ((List.range pattern.ncol).mapM (GraphM.assembleColumn pattern entries.toArray)) fun _ _ => False := by
      apply (GraphM.Reports.mapM_range (fun number after _ =>
        graph.Grown (graph.size + 1 + number) after ∧ number ≤ last) ⟨.refl sound, Nat.zero_le last⟩ ?_).mono
      · rintro _ _ ⟨_, notBeyond⟩
        omega
      · rintro column columnInside before _ ⟨grown, notBeyond⟩
        apply (grown.reports_assembleColumn apart sameLength (Nat.zero_lt_of_lt bounds.1) columnInside).mono
        rintro after _ ⟨grownAfter, nodes⟩
        refine ⟨grownAfter, Nat.lt_of_le_of_ne notBeyond ?_⟩
        rintro rfl
        have isNode := nodes bounds.1 (apart.wellFormed.nonzero?_eq_some.mpr found) isEntry
        cases isForeign.symm.trans isNode
    rcases columns with ⟨cause, after, ran⟩ | ⟨_, _, _, impossible⟩
    · exact ⟨cause, after, GraphM.run_bind_of_error ran _⟩
    · exact impossible.elim
  · simp only [ne_eq, sameLength, not_false_eq_true, if_true]
    exact ⟨_, graph, rfl⟩

end Assembling

/-- Constructors that can fail and handles that are not nodes. In every graph that operations lead to, a binary
operation, a concatenation and the choice of one entry report the first foreign handle and change nothing. Taking all
entries of a foreign handle changes nothing either, but breaks a promise. Assembling reports an error if no foreign
entry addresses a node that is added on the way. -/
theorem Evolves.constructors_foreign {graph : Graph} (evolves : initial.Evolves graph) :
    (∀ op lhs rhs foreign, [lhs, rhs].find? (fun handle => !graph.contains handle) = some foreign →
      (GraphM.binary (.binary op) lhs rhs).run.run graph = (.error (.graph (.unknownNode foreign)), graph)) ∧
    (∀ kind parts foreign, parts.find? (fun handle => !graph.contains handle) = some foreign →
      (GraphM.concat kind parts).run.run graph = (.error (.graph (.unknownNode foreign)), graph)) ∧
    (∀ operand, graph.contains operand = false →
      (∀ index, (GraphM.nonzero operand index).run.run graph =
        (.error (.graph (.unknownNode operand)), graph)) ∧
      (GraphM.nonzeros operand).run.run graph = (.error (.violation (.foreignHandle operand)), graph)) ∧
    ∀ pattern entries, graph.KeepsApart pattern entries → (∃ entry ∈ entries, graph.contains entry = false) →
      ∃ cause after, (GraphM.assemble pattern entries).run.run graph = (.error (.graph cause), after) := by
  have sound := evolves.of_lasts lasts_sound sound_initial
  refine ⟨fun op lhs rhs foreign => GraphM.run_binary_foreign op, ?_, ?_, fun pattern entries apart =>
    apart.assemble_fails sound⟩
  · intro kind parts foreign isFirst
    exact GraphM.run_bind_of_error (GraphM.run_forM_check_foreign isFirst) _
  · intro operand isForeign
    refine ⟨fun index => GraphM.run_bind_of_error (GraphM.run_check_foreign isForeign) _, ?_⟩
    exact GraphM.run_nonzeros_foreign isForeign

theorem initial_keepsApart :
    initial.KeepsApart ⟨2, [[1], [0, 1]]⟩ [.one, .zero, ⟨initial.size + 2⟩] := by
  have isOne := sound_initial.one.pattern_eq
  have isZero := sound_initial.zero.pattern_eq
  have isForeign : initial.contains ⟨initial.size + 2⟩ = false := by simp [contains]
  refine ⟨by decide, by decide, ?_, ?_⟩
  · simp [contains_iff_known.mpr ⟨_, isOne⟩, contains_iff_known.mpr ⟨_, isZero⟩, Pattern.ncol]
  · simp only [List.mem_cons, List.not_mem_nil, or_false, forall_eq_or_imp, forall_eq]
    refine ⟨fun known isKnown => ?_, fun known isKnown => ?_, fun known isKnown => ?_⟩
    · cases isOne.symm.trans isKnown
      decide
    · cases isZero.symm.trans isKnown
      decide
    · cases isForeign.symm.trans (contains_iff_known.mpr ⟨_, isKnown⟩)

/-- A handle that addresses no node and no node that is added. -/
theorem initial_constructors_foreign :
    initial.Evolves initial ∧ initial.contains ⟨initial.size + 2⟩ = false ∧
    (GraphM.binary (.binary .add) .one ⟨initial.size + 2⟩).run.run initial =
      (.error (.graph (.unknownNode ⟨initial.size + 2⟩)), initial) ∧
    (GraphM.concat .diagonal [.one, ⟨initial.size + 2⟩]).run.run initial =
      (.error (.graph (.unknownNode ⟨initial.size + 2⟩)), initial) ∧
    (GraphM.nonzero ⟨initial.size + 2⟩ 0).run.run initial =
      (.error (.graph (.unknownNode ⟨initial.size + 2⟩)), initial) ∧
    ∃ cause after, (GraphM.assemble ⟨2, [[1], [0, 1]]⟩ [.one, .zero, ⟨initial.size + 2⟩]).run.run initial =
      (.error (.graph cause), after) := by
  have isForeign : initial.contains ⟨initial.size + 2⟩ = false := by simp [contains]
  have isNode : initial.contains .one := contains_iff_known.mpr ⟨_, sound_initial.one.pattern_eq⟩
  have isFirst : [Handle.one, ⟨initial.size + 2⟩].find? (fun handle => !initial.contains handle) =
      some ⟨initial.size + 2⟩ := by
    simp [isForeign, isNode]
  rcases Evolves.constructors_foreign .refl with ⟨binary, concat, operand, assemble⟩
  exact ⟨.refl, isForeign, binary .add _ _ _ isFirst, concat .diagonal _ _ isFirst, (operand _ isForeign).1 0,
    assemble _ _ initial_keepsApart ⟨_, by simp, isForeign⟩⟩

/-- The zero that assembling adds is taken for the foreign entry, and the entries of a foreign handle are asked for
without a check. -/
theorem foreign_unnoticed : initial.contains ⟨initial.size⟩ = false ∧
    (GraphM.nonzeros ⟨initial.size⟩).run.run initial =
      (.error (.violation (.foreignHandle ⟨initial.size⟩)), initial) ∧
    ∃ handle after, (GraphM.assemble ⟨2, [[1]]⟩ [⟨initial.size⟩]).run.run initial = (.ok handle, after) := by
  have isForeign : initial.contains ⟨initial.size⟩ = false := by simp [contains]
  refine ⟨isForeign, GraphM.run_nonzeros_foreign isForeign, ?_⟩
  have absent : initial.interned[Node.zeros 1 1]? = none := by
    cases found : initial.interned[Node.zeros 1 1]? with
    | none => rfl
    | some handle =>
        rcases sound_initial.interned found with ⟨_, ⟨entry, isEntry, isZero, _⟩, _⟩
        have member := Array.mem_of_getElem? isEntry
        rw [entries_initial] at member
        simp only [List.mem_toArray, List.mem_cons, List.not_mem_nil, or_false] at member
        rcases member with rfl | rfl | rfl <;> cases isZero
  have derived : initial.derive (.zeros 1 1) = .ok (.blank 1 1) := rfl
  have isNew : (initial.insert (.zeros 1 1) (.blank 1 1)).1 = ⟨initial.size⟩ := by
    rw [insert, absent]
    rfl
  have sound := sound_initial.insert derived
  have known := (sound_initial.interned.hasNode_insert derived).pattern_eq
  have zeroRan := GraphM.run_add derived
  rw [isNew] at known zeroRan
  generalize (initial.insert (.zeros 1 1) (.blank 1 1)).2 = between at sound known zeroRan
  have stacked : between.derive (.concat .vertical [⟨initial.size⟩, ⟨initial.size⟩]) = .ok (.blank 2 1) :=
    bind_eq_ok.mpr ⟨[.blank 1 1, .blank 1 1], mapM_eq_ok.mpr (.cons known (.cons known .nil)), rfl⟩
  have stackKnown := (sound.interned.hasNode_insert stacked).pattern_eq
  have stackRan := GraphM.run_add stacked
  generalize between.insert (.concat .vertical [⟨initial.size⟩, ⟨initial.size⟩]) (.blank 2 1) = stack
    at stackKnown stackRan
  have cells : ([0, 1].mapM fun row => GraphM.assembleCell ⟨2, [[1]]⟩ #[⟨initial.size⟩] row 0).run.run initial =
      (.ok [⟨initial.size⟩, ⟨initial.size⟩], between) := by
    rw [List.mapM_cons, List.mapM_cons]
    exact GraphM.run_bind_of_ok zeroRan _
  have fits : requireBuffer 2 = .ok () := if_pos (by decide)
  have stackedRan : (GraphM.concat .vertical [⟨initial.size⟩, ⟨initial.size⟩]).run.run between =
      (.ok stack.1, stack.2) := by
    refine (GraphM.run_bind_of_ok (GraphM.run_forM ?_) _).trans stackRan
    simpa using GraphM.run_check known
  have column : (GraphM.assembleColumn ⟨2, [[1]]⟩ #[⟨initial.size⟩] 0).run.run initial = (.ok stack.1, stack.2) := by
    refine (GraphM.run_bind_of_ok (GraphM.run_lift_of_ok fits initial) _).trans ?_
    exact (GraphM.run_bind_of_ok cells _).trans stackedRan
  have columns : ([0].mapM (GraphM.assembleColumn ⟨2, [[1]]⟩ #[⟨initial.size⟩])).run.run initial =
      (.ok [stack.1], stack.2) := by
    rw [List.mapM_cons]
    exact GraphM.run_bind_of_ok column _
  have beside : (GraphM.concat .horizontal [stack.1]).run.run stack.2 = (.ok stack.1, stack.2) := by
    refine GraphM.run_bind_of_ok (GraphM.run_forM ?_) _
    simpa using GraphM.run_check stackKnown
  exact ⟨stack.1, stack.2, (GraphM.run_bind_of_ok columns _).trans beside⟩

end Graph

end Autodiff
