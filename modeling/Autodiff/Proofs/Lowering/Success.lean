import Autodiff.Proofs.Graph.Spelling
import Autodiff.Proofs.Lowering.PlainTapes
import Autodiff.Proofs.Lowering.SlotIndependence
import Autodiff.Proofs.Lowering.Traversal
import Autodiff.Proofs.Pattern.Representation

/-!
# Lowering succeeds or rejects the problem

A problem is well posed if its inputs are distinct symbols, its outputs are nodes of the graph and every symbol
that an output reaches is an input. Lowering a node succeeds once all its operands are lowered and each of them has
as many values as its pattern stores entries. Post-order visits operands first, so as long as no free symbol is met
every visit succeeds. Each stage can fail in a few ways only, and each of them names a handle that makes the problem
ill-posed (`Graph.Rejects`); otherwise a tape is built, with the operations of the outputs (`build_ends`).
-/

namespace Autodiff

namespace Graph

variable {graph : Graph} {vocabulary : Vocabulary} {handle : Handle} {inputs outputs : List Handle}

def IsSymbol (graph : Graph) (handle : Handle) : Prop :=
  ∃ entry, graph.entry? handle = some entry ∧ entry.node.isSymbol

theorem Spelled.of_reaches {output : Handle} (spelled : graph.Spelled vocabulary output)
    (reaches : graph.Reaches output handle) : graph.Spelled vocabulary handle := by
  induction reaches with
  | refl => exact spelled
  | tail _ reads isSpelled =>
      rcases reads with ⟨entry, found, member⟩
      exact (isSpelled.allows ⟨entry, found, rfl, rfl⟩).2 _ member

/-! ## Problems -/

/-- The inputs are distinct symbols, the outputs are nodes, and they reach no other symbols than the inputs. -/
structure WellPosed (graph : Graph) (inputs outputs : List Handle) : Prop where
  symbols : ∀ input ∈ inputs, graph.IsSymbol input
  distinct : inputs.Nodup
  known : ∀ output ∈ outputs, graph.contains output
  declared : ∀ output ∈ outputs, ∀ symbol, graph.Reaches output symbol → graph.IsSymbol symbol → symbol ∈ inputs

/-- The reasons for which a problem is rejected. -/
inductive Rejects (graph : Graph) (inputs outputs : List Handle) : Error → Prop where
  | unknown {handle : Handle} (member : handle ∈ inputs ++ outputs) (unknown : graph.contains handle = false) :
      Rejects graph inputs outputs (.graph (.unknownNode handle))
  | notSymbol {input : Handle} (member : input ∈ inputs) (known : graph.contains input)
      (notSymbol : ¬graph.IsSymbol input) : Rejects graph inputs outputs (.graph (.notSymbol input))
  | duplicate {input : Handle} (repeated : 1 < inputs.count input) :
      Rejects graph inputs outputs (.graph (.duplicateInput input))
  | free {output symbol : Handle} {entry : Entry} (member : output ∈ outputs)
      (reaches : graph.Reaches output symbol) (found : graph.entry? symbol = some entry)
      (isSymbol : entry.node.isSymbol) (undeclared : symbol ∉ inputs) :
      Rejects graph inputs outputs
        (.graph (.freeSymbol symbol ((graph.symbolName? entry.node).getD "")))

theorem Rejects.mono {inputs' outputs' : List Handle} {cause : Error}
    (rejects : graph.Rejects inputs outputs cause) (same : inputs.Perm inputs') (more : outputs ⊆ outputs') :
    graph.Rejects inputs' outputs' cause := by
  cases rejects with
  | unknown member unknown =>
      refine .unknown (List.mem_append.mpr ?_) unknown
      exact (List.mem_append.mp member).imp same.mem_iff.mp (@more _)
  | notSymbol member known notSymbol => exact .notSymbol (same.mem_iff.mp member) known notSymbol
  | duplicate repeated => exact .duplicate (same.count_eq _ ▸ repeated)
  | free member reaches found isSymbol undeclared =>
      exact .free (more member) reaches found isSymbol (same.mem_iff.not.mp undeclared)

end Graph

def Emission.Uses (emission : Emission) (vocabulary : Vocabulary) : Prop :=
  ∀ instruction ∈ emission.instructions, vocabulary.AllowsOp instruction.op

/-! ## Emitting computations that succeed -/

namespace EmitM

/-- A computation succeeds, lowers no node by itself and emits only allowed operations. -/
def Emits {α : Type} (vocabulary : Vocabulary) (before : Emission) (emit : EmitM α)
    (property : α → Prop) : Prop :=
  ∃ result after, emit.run before = .ok (result, after) ∧ property result ∧
    after.values = before.values ∧ (before.Uses vocabulary → after.Uses vocabulary)

variable {α β : Type} {vocabulary : Vocabulary} {before : Emission}

namespace Emits

theorem pure {value : α} {property : α → Prop} (holds : property value) :
    Emits vocabulary before (pure value) property :=
  ⟨value, before, rfl, holds, rfl, id⟩

theorem bind {first : EmitM α} {next : α → EmitM β} {between : α → Prop} {property : β → Prop}
    (start : Emits vocabulary before first between)
    (continued : ∀ value middle, between value → middle.values = before.values →
      Emits vocabulary middle (next value) property) :
    Emits vocabulary before (first >>= next) property := by
  rcases start with ⟨value, middle, ran, holds, values, uses⟩
  rcases continued value middle holds values with ⟨result, after, ranOn, resultHolds, same, usesOn⟩
  refine ⟨result, after, ?_, resultHolds, same.trans values, fun used => usesOn (uses used)⟩
  rw [StateT.run_bind, ran]
  exact ranOn

theorem lift_bind {first : Except Error α} {value : α} {next : α → EmitM β} {property : β → Prop}
    (found : first = .ok value) (continued : Emits vocabulary before (next value) property) :
    Emits vocabulary before (liftM first >>= next) property := by
  subst found
  exact continued

theorem mapM {elements : List α} {emit : α → EmitM β}
    (each : ∀ element ∈ elements, ∀ middle : Emission, middle.values = before.values →
      Emits vocabulary middle (emit element) fun _ => True) :
    Emits vocabulary before (elements.mapM emit) fun results => results.length = elements.length := by
  induction elements generalizing before with
  | nil => exact .pure rfl
  | cons element elements ih =>
      rw [List.mapM_cons]
      apply (each element (List.mem_cons_self ..) before rfl).bind
      intro result middle _ values
      have later : ∀ other ∈ elements, ∀ emission : Emission, emission.values = middle.values →
          Emits vocabulary emission (emit other) fun _ => True :=
        fun other member emission same =>
          each other (List.mem_cons_of_mem _ member) emission (same.trans values)
      apply (ih later).bind
      intro results last length _
      exact .pure (by simp [length])

end Emits

theorem emits_constant (share : Bool) (literal : Float) :
    Emits vocabulary before (modifyGet fun emission => emission.constant share literal)
      fun _ => True := by
  have emitted : (before.constant share literal).2.values = before.values ∧
      (before.Uses vocabulary → (before.constant share literal).2.Uses vocabulary) := by
    unfold Emission.constant
    split
    · exact ⟨rfl, id⟩
    · refine ⟨rfl, fun uses => ?_⟩
      simp only [Emission.Uses, Array.mem_push, or_imp, forall_and, forall_eq]
      exact ⟨uses, trivial⟩
  exact ⟨_, _, rfl, trivial, emitted⟩

theorem emits_operation (share : Bool) {op : Opcode} (allowed : vocabulary.AllowsOp op)
    (first second : Nat) :
    Emits vocabulary before (modifyGet fun emission => emission.operation share op first second)
      fun _ => True := by
  have sorted : ∀ left right, (before.sortedOperation share op left right).2.values = before.values ∧
      (before.Uses vocabulary → (before.sortedOperation share op left right).2.Uses vocabulary) := by
    intro left right
    unfold Emission.sortedOperation
    split
    · exact ⟨rfl, id⟩
    · refine ⟨rfl, fun uses => ?_⟩
      simp only [Emission.Uses, Array.mem_push, or_imp, forall_and, forall_eq]
      exact ⟨uses, allowed⟩
  have emitted : (before.operation share op first second).2.values = before.values ∧
      (before.Uses vocabulary → (before.operation share op first second).2.Uses vocabulary) := by
    unfold Emission.operation
    split
    · exact sorted second first
    · exact sorted first second
  exact ⟨_, _, rfl, trivial, emitted⟩

/-- A lowered node has a value for every stored entry. -/
def Counts (graph : Graph) (emission : Emission) (handle : Handle) (pattern : Pattern) : Prop :=
  ∃ values, emission.Lowered handle values ∧ graph.pattern handle = .ok pattern ∧
    values.size = pattern.nnz

variable {graph : Graph} {operand : Handle} {pattern : Pattern}

theorem Counts.of_values {after : Emission} (counts : Counts graph before operand pattern)
    (same : after.values = before.values) : Counts graph after operand pattern := by
  rcases counts with ⟨values, lowered, counted⟩
  exact ⟨values, by rwa [Emission.Lowered, same], counted⟩

theorem Counts.of_known (known : graph.pattern operand = .ok pattern)
    (counted : ∃ other, Counts graph before operand other) : Counts graph before operand pattern := by
  rcases counted with ⟨other, values, lowered, isOther, size⟩
  cases known.symm.trans isOther
  exact ⟨values, lowered, known, size⟩

theorem emits_stored (counts : Counts graph before operand pattern) {index : Nat}
    (inside : index < pattern.nnz) :
    Emits vocabulary before (stored operand index) fun _ => True := by
  rcases counts with ⟨values, lowered, _, counted⟩
  rw [← counted] at inside
  refine ⟨values[index], before, ?_, trivial, rfl, id⟩
  have found : (before.lowered operand)[index]? = some values[index] := by
    simp [Emission.lowered, show before.values[operand.index]? = some (some values) from lowered]
  simp only [stored, StateT.run_bind, StateT.run_get, pure_bind, found]
  rfl

theorem emits_element (share : Bool) (counts : Counts graph before operand pattern)
    (row column : Nat) :
    Emits vocabulary before (element graph share operand row column) fun _ => True := by
  have counts' := counts
  rcases counts with ⟨_, _, known, _⟩
  rcases Graph.pattern_eq_ok.mp known with ⟨entry, found, rfl⟩
  apply Emits.lift_bind (Graph.entry_eq_ok.mpr found)
  cases index : entry.pattern.operandIndex? row column with
  | none => exact emits_constant share 0
  | some index' =>
      apply emits_stored counts'
      rw [Pattern.operandIndex?] at index
      split at index <;>
        exact Pattern.lt_nnz_of_getElem? (Pattern.getElem?_positions_of_nonzero? index)

theorem exists_entries {parts : List Handle} {patterns : List Pattern}
    (found : List.Forall₂ (fun part pattern => graph.pattern part = .ok pattern) parts patterns) :
    ∃ entries : List Entry, parts.mapM graph.entry = .ok entries ∧ entries.map Entry.pattern = patterns := by
  induction found with
  | nil => exact ⟨[], rfl, rfl⟩
  | cons known _ ih =>
      rcases Graph.pattern_eq_ok.mp known with ⟨entry, isEntry, rfl⟩
      rcases ih with ⟨entries, isEntries, rfl⟩
      refine ⟨entry :: entries, ?_, rfl⟩
      rw [List.mapM_cons, Graph.entry_eq_ok.mpr isEntry, ok_bind, isEntries, ok_bind]
      rfl

theorem emits_part {parts : List Handle} {patterns : List Pattern}
    (found : List.Forall₂ (fun part pattern => graph.pattern part = .ok pattern) parts patterns)
    (counted : ∀ part ∈ parts, ∃ known, Counts graph before part known) {source : Pattern.PartEntry}
    {part : Pattern} (isPart : patterns[source.1]? = some part) (inside : source.2 < part.nnz) :
    Emits vocabulary before (match parts[source.1]? with
      | some part => stored part source.2
      | none => throw (.violation .entryOutOfRange)) fun _ => True := by
  rcases forall₂_getElem? found.flip isPart with ⟨handle, isHandle, known⟩
  rw [isHandle]
  exact emits_stored (.of_known known (counted handle (List.mem_of_getElem? isHandle))) inside

/-- Lowering a node succeeds once its operands are lowered, and gives a value for every stored entry. -/
theorem emits_lowerNode (share : Bool) (wellFormed : graph.WellFormed) {handle : Handle} {node : Node}
    (derived : graph.Derived node pattern) (allowed : vocabulary.Allows handle node)
    (counted : ∀ operand ∈ node.operands, ∃ known, Counts graph before operand known) :
    Emits vocabulary before (lowerNode graph share handle pattern node)
      fun values => values.length = pattern.nnz := by
  have ofUnary : ∀ {op : UnaryOp} {operand : Handle}, vocabulary.unary op →
      (∃ known, Counts graph before operand known) →
      Emits vocabulary before (lowerNode graph share handle pattern (.unary op operand))
        fun values => values.length = pattern.nnz := by
    rintro op operand allowed ⟨known, counts⟩
    have isAllowed : vocabulary.AllowsOp (.unary op) := allowed
    rw [← Pattern.length_positions]
    apply Emits.mapM
    intro position _ middle same
    apply (emits_element share (counts.of_values same) position.1 position.2).bind
    intro value last _ _
    exact emits_operation share isAllowed value unusedOperand
  cases derived with
  | constant literal =>
      apply (emits_constant share literal).bind
      exact fun value middle _ _ => .pure rfl
  | zeros nrow ncol => exact .pure (by simp [Pattern.nnz, Pattern.blank, Pattern.total_replicate])
  | preserving found preserves =>
      exact ofUnary allowed (counted _ (List.mem_singleton_self _))
  | filling found fills =>
      exact ofUnary allowed (counted _ (List.mem_singleton_self _))
  | @binary op lhs rhs _ _ _ _ _ _ leftFound rightFound common leftSpread rightSpread combined =>
      have isAllowed : vocabulary.AllowsOp (.binary op) := allowed
      simp only [Node.operands, List.forall_mem_cons] at counted
      rcases counted with ⟨⟨_, left⟩, ⟨_, right⟩, _⟩
      rw [← Pattern.length_positions]
      apply Emits.mapM
      intro position _ middle same
      apply (emits_element share (left.of_values same) position.1 position.2).bind
      intro first next _ sameNext
      apply (emits_element share (right.of_values (sameNext.trans same)) position.1 position.2).bind
      intro second last _ _
      exact emits_operation share isAllowed first second
  | concat found combines =>
      rcases exists_entries found with ⟨entries, isEntries, rfl⟩
      have routes := (Pattern.concat_concatenates combines (wellFormed.patterns found)).routes
      apply Emits.lift_bind isEntries
      apply Emits.lift_bind combines
      have length := routes.routed.length_eq
      rw [← Pattern.length_positions, length]
      apply Emits.mapM
      intro source member middle same
      rcases exists_related routes.routed.flip member with ⟨position, _, part, stored, isPart, isStored, _⟩
      apply emits_part found _ isPart (Pattern.lt_nnz_of_getElem? isStored)
      intro part isOperand
      rcases counted part isOperand with ⟨known, counts⟩
      exact ⟨known, counts.of_values same⟩
  | transpose found result =>
      have counts := Counts.of_known found (counted _ (List.mem_singleton_self _))
      have routes := (wellFormed.pattern found).transpose_routes result
      rcases Graph.pattern_eq_ok.mp found with ⟨entry, isEntry, rfl⟩
      apply Emits.lift_bind (Graph.entry_eq_ok.mpr isEntry)
      apply Emits.lift_bind result
      rw [← Pattern.length_positions, routes.routed.length_eq]
      apply Emits.mapM
      intro source member middle same
      rcases exists_related routes.routed.flip member with ⟨position, _, isStored⟩
      exact emits_stored (counts.of_values same) (Pattern.lt_nnz_of_getElem? isStored)
  | nonzero found inside =>
      apply (emits_stored (.of_known found (counted _ (List.mem_singleton_self _))) inside).bind
      exact fun value middle _ _ => .pure rfl

end EmitM

/-! ## Visiting all nodes -/

namespace Emission

open EmitM

/-- Every lowered node has a value for every stored entry, there is room for all nodes of the graph, and only
allowed operations have been emitted. -/
structure Ready (graph : Graph) (vocabulary : Vocabulary) (emission : Emission) : Prop where
  sized : emission.values.size = graph.size
  counted : ∀ ⦃handle values⦄, emission.Lowered handle values →
    ∃ pattern, graph.pattern handle = .ok pattern ∧ values.size = pattern.nnz
  uses : emission.Uses vocabulary

variable {graph : Graph} {vocabulary : Vocabulary} {emission : Emission} {handle : Handle}

theorem Ready.counts (ready : emission.Ready graph vocabulary)
    (isLowered : ∃ values, emission.Lowered handle values) :
    ∃ pattern, Counts graph emission handle pattern := by
  rcases isLowered with ⟨values, lowered⟩
  rcases ready.counted lowered with ⟨pattern, known, counted⟩
  exact ⟨pattern, values, lowered, known, counted⟩

theorem Ready.store (ready : emission.Ready graph vocabulary) {values : List Nat} {pattern : Pattern}
    (known : graph.pattern handle = .ok pattern) (counted : values.length = pattern.nnz) :
    (emission.store handle values).Ready graph vocabulary where
  sized := (Array.size_setIfInBounds ..).trans ready.sized
  counted := by
    intro other otherValues lowered
    rcases lowered.of_store with ⟨rfl, rfl⟩ | before
    · exact ⟨pattern, known, counted⟩
    · exact ready.counted before
  uses := ready.uses

/-- One visit succeeds if the operands are lowered; a symbol has to be lowered before. -/
theorem Ready.exists_visit (ready : emission.Ready graph vocabulary) (wellFormed : graph.WellFormed)
    (share : Bool) (spelled : graph.Spelled vocabulary handle)
    (bound : graph.IsSymbol handle → ∃ values, emission.Lowered handle values)
    (operands : ∀ operand, graph.HasOperand handle operand → ∃ values, emission.Lowered operand values) :
    ∃ after, (visit graph share handle).run emission = .ok ((), after) ∧ after.Ready graph vocabulary ∧
      (∃ values, after.Lowered handle values) ∧
      ∀ ⦃other values⦄, emission.Lowered other values → after.Lowered other values := by
  by_cases isLowered : ∃ values, emission.Lowered handle values
  · exact ⟨emission, run_visit_of_lowered graph share isLowered, ready, isLowered, fun _ _ lowered => lowered⟩
  · cases spelled with
    | @intro _ node pattern hasNode allowed _ =>
        rcases hasNode with ⟨entry, found, rfl, rfl⟩
        have derived : graph.Derived entry.node entry.pattern := by
          rcases (wellFormed found).derived with isSymbol | derived
          · exact absurd (bound ⟨entry, found, isSymbol⟩) isLowered
          · exact derived
        rcases emits_lowerNode share wellFormed derived allowed fun operand member =>
            ready.counts (operands operand ⟨entry, found, member⟩) with
          ⟨values, middle, ran, length, same, uses⟩
        have middleReady : middle.Ready graph vocabulary :=
          ⟨by rw [same, ready.sized], by simpa only [Lowered, same] using ready.counted, uses ready.uses⟩
        have known : graph.pattern handle = .ok entry.pattern :=
          Graph.pattern_eq_ok.mpr ⟨entry, found, rfl⟩
        refine ⟨middle.store handle values, ?_, middleReady.store known length, ⟨values.toArray, ?_⟩, ?_⟩
        · have lowered : (lower graph share handle).run emission = .ok (values, middle) := by
            rw [lower, Graph.entry_eq_ok.mpr found]
            exact ran
          rw [run_visit_of_fresh graph share isLowered, lowered]
          rfl
        · exact lowered_store (middleReady.sized ▸ (Array.getElem?_eq_some_iff.mp found).1)
        · have stillFresh : ¬∃ values, middle.Lowered handle values := by simpa only [Lowered, same] using isLowered
          exact fun other otherValues lowered => (grows_store values stillFresh).lowered (by rwa [Lowered, same])

theorem visit_free (share : Bool) {entry : Entry} (found : graph.entry? handle = some entry)
    (isSymbol : entry.node.isSymbol) (free : ¬∃ values, emission.Lowered handle values) :
    (visit graph share handle).run emission =
      .error (.graph (.freeSymbol handle ((graph.symbolName? entry.node).getD ""))) := by
  rw [run_visit_of_fresh graph share free, lower, Graph.entry_eq_ok.mpr found]
  rcases entry with ⟨node, pattern, references⟩
  cases node with
  | symbol index => rfl
  | _ => cases isSymbol

/-- The visits of nodes in post-order succeed, or they meet a symbol that was not lowered before. -/
theorem Ready.visits_ends (ready : emission.Ready graph vocabulary) (wellFormed : graph.WellFormed) (share : Bool)
    {reversed : List Handle} (settled : graph.Settled reversed)
    (spelled : ∀ handle ∈ reversed, graph.Spelled vocabulary handle) :
    Ends
      (fun cause => ∃ handle ∈ reversed, ∃ entry, graph.entry? handle = some entry ∧ entry.node.isSymbol ∧
        (¬∃ values, emission.Lowered handle values) ∧
        cause = .graph (.freeSymbol handle ((graph.symbolName? entry.node).getD "")))
      (fun (_, after) => after.Ready graph vocabulary ∧ (∀ handle ∈ reversed, ∃ values, after.Lowered handle values) ∧
        ∀ ⦃other values⦄, emission.Lowered other values → after.Lowered other values)
      ((reversed.reverse.forM (visit graph share)).run emission) := by
  -- The order is reversed, so the last node to visit is the first of the list.
  induction reversed with
  | nil => exact ⟨ready, by simp, fun _ _ lowered => lowered⟩
  | cons last earlier ih =>
      rw [List.forall_mem_cons] at spelled
      rw [List.reverse_cons, List.forM_eq_forM, List.forM_append, StateT.run_bind, ← List.forM_eq_forM]
      refine ((ih settled.2 spelled.2).mono ?_ fun _ => id).bind ?_
      · rintro cause ⟨handle, member, free⟩
        exact ⟨handle, List.mem_cons_of_mem _ member, free⟩
      · rintro ⟨_, middle⟩ ⟨middleReady, visited, keeps⟩
        change Ends _ _ ((visit graph share last >>= fun _ => pure ⟨⟩ : EmitM PUnit).run middle)
        rw [StateT.run_bind]
        rcases spelled.1.exists_entry with ⟨entry, found⟩
        by_cases free : entry.node.isSymbol ∧ ¬∃ values, middle.Lowered last values
        · rw [visit_free share found free.1 free.2]
          refine ⟨last, List.mem_cons_self .., entry, found, free.1, ?_, rfl⟩
          rintro ⟨values, lowered⟩
          exact free.2 ⟨values, keeps lowered⟩
        · have bound : graph.IsSymbol last → ∃ values, middle.Lowered last values := by
            rintro ⟨other, isOther, isSymbol⟩
            cases found.symm.trans isOther
            by_contra notLowered
            exact free ⟨isSymbol, notLowered⟩
          rcases middleReady.exists_visit wellFormed share spelled.1 bound
            (fun operand reads => visited operand (settled.1 operand reads)) with
            ⟨after, ran, afterReady, isLowered, keepsOn⟩
          rw [ran]
          refine ⟨afterReady, List.forall_mem_cons.mpr ⟨isLowered, fun handle member => ?_⟩,
            fun _ _ lowered => keepsOn (keeps lowered)⟩
          exact (visited handle member).imp fun _ lowered => keepsOn lowered

end Emission

/-! ## Building -/

namespace Graph

open Emission

variable {graph : Graph} {vocabulary : Vocabulary} {inputs outputs : List Handle}

theorem run_declareInputs_cons {seen : List Handle} {input : Handle} {entry : Entry}
    (found : graph.entry? input = some entry) (inputs : List Handle) (before : Emission) :
    (graph.declareInputs seen (input :: inputs)).run before =
      if !entry.node.isSymbol then .error (.graph (.notSymbol input))
      else if seen.contains input then .error (.graph (.duplicateInput input))
      else (graph.declareInputs (input :: seen) inputs).run (before.declare input entry.pattern.nnz).2 >>=
        fun rest => .ok (⟨(graph.symbolName? entry.node).getD "", entry.pattern,
          (before.declare input entry.pattern.nnz).1⟩ :: rest.1, rest.2) := by
  have checked : graph.check input = .ok () := if_pos (contains_iff.mpr ⟨entry, found⟩)
  rw [declareInputs, checked, entry_eq_ok.mpr found]
  change (if !entry.node.isSymbol then _ else _ : EmitM _).run before = _
  cases entry.node.isSymbol with
  | false => rfl
  | true =>
      change (if seen.contains input then _ else _ : EmitM _).run before = _
      cases seen.contains input <;> rfl

/-- Declaring inputs fails only if one of them is no symbol of the graph or was declared before. -/
theorem declareInputs_ends (graph : Graph) (seen inputs : List Handle) (before : Emission) :
    Ends (graph.Rejects (seen ++ inputs) []) (fun _ => True) ((graph.declareInputs seen inputs).run before) := by
  induction inputs generalizing seen before with
  | nil => trivial
  | cons input inputs ih =>
      have isInput : input ∈ seen ++ input :: inputs := by simp
      by_cases known : graph.contains input
      · rcases contains_iff.mp known with ⟨entry, found⟩
        rw [run_declareInputs_cons found]
        split
        · rename_i notSymbol
          refine .notSymbol isInput known ?_
          rintro ⟨other, isOther, isSymbol⟩
          cases found.symm.trans isOther
          simp [isSymbol] at notSymbol
        · split
          · rename_i isSeen
            refine .duplicate ?_
            have before := List.count_pos_iff.mpr (List.contains_iff_mem.mp isSeen)
            rw [List.count_append, List.count_cons_self]
            omega
          · refine ((ih (input :: seen) _).mono (fun cause rejects => ?_) fun _ => id).bind fun _ _ => trivial
            exact rejects.mono List.perm_middle.symm (List.Subset.refl _)
      · have failed : graph.check input = .error (.graph (.unknownNode input)) := if_neg known
        rw [declareInputs, failed]
        exact .unknown (by simp) (Bool.eq_false_iff.mpr known)

theorem exists_outputBlocks (known : ∀ output ∈ outputs, ∃ entry, graph.entry? output = some entry)
    (index : Nat) (slots : List (List Nat)) : ∃ blocks, graph.outputBlocks index outputs slots = .ok blocks := by
  induction outputs generalizing index slots with
  | nil => exact ⟨[], by cases slots <;> rfl⟩
  | cons output outputs ih =>
      rw [List.forall_mem_cons] at known
      rcases known.1 with ⟨entry, found⟩
      rcases slots with _ | ⟨first, slots⟩
      · exact ⟨[], rfl⟩
      · rcases ih known.2 (index + 1) slots with ⟨blocks, isBlocks⟩
        refine ⟨⟨(graph.symbolName? entry.node).getD s!"o{index}", entry.pattern, first⟩ :: blocks, ?_⟩
        simp only [outputBlocks, entry_eq_ok.mpr found, isBlocks, ok_bind]
        rfl

theorem Declares.ready {blocks : List Block} {start : Emission}
    (declares : Declares graph [] inputs blocks { values := Array.replicate graph.size none } start) :
    start.Ready graph vocabulary := by
  refine ⟨by rw [declares.sized, Array.size_replicate], ?_, by simp [Uses, declares.bare.instructions]⟩
  intro handle values lowered
  rcases declares.lowered_iff.mp lowered with ⟨block, member, rfl⟩
  rcases declares.declared.entry_of_mem member with ⟨entry, found, _, _, length⟩
  exact ⟨entry.pattern, pattern_eq_ok.mpr ⟨entry, entry_eq_ok.mp found, rfl⟩, by simpa using length⟩

theorem Declares.exists_lowered {blocks : List Block} {start : Emission}
    (declares : Declares graph [] inputs blocks { values := Array.replicate graph.size none } start)
    {input : Handle} (member : input ∈ inputs) : ∃ values, start.Lowered input values := by
  rcases List.mem_iff_getElem?.mp member with ⟨index, isInput⟩
  rcases forall₂_getElem? declares.declared.forall₂ isInput with ⟨block, isBlock, _⟩
  refine ⟨_, declares.lowered_iff.mpr ⟨block, ?_, rfl⟩⟩
  exact List.mem_of_getElem? (List.getElem?_zip_eq_some.mpr ⟨isInput, isBlock⟩)

theorem check_ends (member : handle ∈ inputs ++ outputs) :
    Ends (graph.Rejects inputs outputs) (fun _ => True) (graph.check handle) := by
  rw [check]
  split
  · trivial
  · rename_i unknown
    exact .unknown member (Bool.eq_false_iff.mpr unknown)

/-- Everything is emitted, or the problem is rejected. -/
theorem WellFormed.emitAll_ends (wellFormed : graph.WellFormed) (share : Bool) (inputs outputs : List Handle)
    (spelled : ∀ output ∈ outputs, graph.contains output → graph.Spelled vocabulary output) :
    Ends (graph.Rejects inputs outputs)
      (fun emitted => (∀ output ∈ outputs, graph.contains output) ∧ emitted.2.Uses vocabulary)
      ((graph.emitAll share inputs outputs).run { values := Array.replicate graph.size none }) := by
  rw [emitAll, StateT.run_bind]
  have declaring := graph.declareInputs_ends [] inputs { values := Array.replicate graph.size none }
  rcases declared : (graph.declareInputs [] inputs).run { values := Array.replicate graph.size none } with
    cause | ⟨blocks, start⟩
  · rw [declared] at declaring
    exact Rejects.mono declaring (.refl _) (List.nil_subset _)
  have declares := declareInputs_spec ⟨rfl, rfl, rfl⟩ declared
  have checking : Ends (graph.Rejects inputs outputs) (fun _ => True) (outputs.forM graph.check) :=
    .forM fun output member => check_ends (List.mem_append_right _ member)
  rcases checked : (outputs.forM graph.check : Except Error PUnit) with cause | _
  · rw [checked] at checking
    exact checking
  have known : ∀ output ∈ outputs, graph.contains output := by
    intro output member
    by_contra unknown
    have passed := forM_eq_ok.mp checked output member
    rw [check, if_neg unknown] at passed
    cases passed
  -- Post-order visits nothing but what the outputs reach.
  rcases wellFormed.exists_postOrder known with ⟨reversed, ordered, settled, reached⟩
  have visiting := declares.ready.visits_ends wellFormed share settled fun handle member => by
    rcases (reached handle).mp member with ⟨output, isOutput, reaches⟩
    exact (spelled output isOutput (known output isOutput)).of_reaches reaches
  rw [ordered]
  change Ends _ _ ((reversed.reverse.forM (EmitM.visit graph share) >>= fun _ => _ : EmitM _).run start)
  rw [StateT.run_bind]
  refine (visiting.mono ?_ fun _ => id).bind fun _ holds => ⟨known, holds.1.uses⟩
  rintro cause ⟨symbol, member, entry, found, isSymbol, notLowered, rfl⟩
  rcases (reached symbol).mp member with ⟨output, isOutput, reaches⟩
  exact .free isOutput reaches found isSymbol fun isInput => notLowered (declares.exists_lowered isInput)

theorem WellPosed.not_rejects (wellPosed : graph.WellPosed inputs outputs) {cause : Error} :
    ¬graph.Rejects inputs outputs cause := by
  intro rejects
  cases rejects with
  | unknown member unknown =>
      rcases List.mem_append.mp member with isInput | isOutput
      · rcases wellPosed.symbols _ isInput with ⟨entry, found, _⟩
        cases unknown.symm.trans (contains_iff.mpr ⟨entry, found⟩)
      · cases unknown.symm.trans (wellPosed.known _ isOutput)
  | notSymbol member known notSymbol => exact notSymbol (wellPosed.symbols _ member)
  | duplicate repeated => exact Nat.not_le.mpr repeated (List.nodup_iff_count_le_one.mp wellPosed.distinct _)
  | free member reaches found isSymbol undeclared =>
      exact undeclared (wellPosed.declared _ member _ reaches ⟨_, found, isSymbol⟩)

/-- A problem is well posed if the inputs are distinct symbols and the outputs are spelled with them. -/
theorem wellPosed_of_spelled (symbols : ∀ input ∈ inputs, graph.IsSymbol input) (distinct : inputs.Nodup)
    (declared : ∀ handle, vocabulary.symbol handle → handle ∈ inputs)
    (spelled : ∀ output ∈ outputs, graph.Spelled vocabulary output) : graph.WellPosed inputs outputs := by
  refine ⟨symbols, distinct, fun output member => contains_iff.mpr (spelled output member).exists_entry, ?_⟩
  rintro output member symbol reaches ⟨⟨node, pattern, references⟩, found, isSymbol⟩
  have isSpelled := (spelled output member).of_reaches reaches
  cases node <;> cases isSymbol
  exact declared symbol (isSpelled.allows ⟨_, found, rfl, rfl⟩).1

theorem WellFormed.spelled_of_contains (wellFormed : graph.WellFormed) (isNode : graph.contains handle) :
    graph.Spelled .all handle := by
  rcases contains_iff.mp isNode with ⟨entry, found⟩
  exact wellFormed.spelled_all (pattern_eq_ok.mpr ⟨entry, found, rfl⟩)

end Graph

theorem allowsOp_prune {vocabulary : Vocabulary} {instructions : List Instruction}
    (allowed : ∀ instruction ∈ instructions, vocabulary.AllowsOp instruction.op) (numInputs : Nat)
    (outputs : List (List Nat)) :
    ∀ instruction ∈ (prune numInputs instructions outputs).1, vocabulary.AllowsOp instruction.op := by
  intro renamed member
  rcases prune_renames numInputs instructions outputs with ⟨chosen, sublist, renames⟩
  rcases exists_related renames.flip member with ⟨instruction, isChosen, rename, out, rfl⟩
  rw [Instruction.op_rename]
  exact allowed instruction (sublist.subset isChosen)

theorem Linked.allowsOp {vocabulary : Vocabulary} {firstSize secondSize : Nat} {before after : Link}
    {firsts seconds : List Instruction} (linked : Linked firstSize secondSize before firsts seconds after)
    (allowed : ∀ instruction ∈ firsts, vocabulary.AllowsOp instruction.op) :
    ∀ instruction ∈ seconds, vocabulary.AllowsOp instruction.op := by
  induction linked with
  | nil => simp
  | cons step _ ih =>
      rw [List.forall_mem_cons] at allowed ⊢
      exact ⟨step.op_eq ▸ allowed.1, ih allowed.2⟩

namespace Graph

variable {graph : Graph} {vocabulary : Vocabulary} {handle : Handle} {inputs outputs : List Handle}
  {options : BuildOptions} {tape : Tape}

/-- A tape is built whose instructions use no other operations than the outputs are spelled with, or the problem is
rejected. -/
theorem WellFormed.build_ends (wellFormed : graph.WellFormed) (options : BuildOptions)
    (inputs outputs : List Handle)
    (spelled : ∀ output ∈ outputs, graph.contains output → graph.Spelled vocabulary output) :
    Ends (graph.Rejects inputs outputs) (fun tape => ∀ instruction ∈ tape.instructions, vocabulary.AllowsOp instruction.op)
      (graph.build options inputs outputs) := by
  rcases options with ⟨reuse, share⟩
  have plain : Ends (graph.Rejects inputs outputs)
      (fun tape => ∀ instruction ∈ tape.instructions, vocabulary.AllowsOp instruction.op)
      (graph.build ⟨false, share⟩ inputs outputs) := by
    refine (wellFormed.emitAll_ends share inputs outputs spelled).bind ?_
    rintro ⟨⟨blocks, values⟩, emission⟩ ⟨known, uses⟩
    rcases exists_outputBlocks (fun output member => contains_iff.mp (known output member)) 0
      (prune emission.numInputs emission.instructions.toList values).2 with ⟨outputBlocks, found⟩
    simp only [tapeOf, assignSlots, Bool.false_eq_true, if_false, found, ok_bind]
    exact allowsOp_prune (fun instruction member => uses instruction (Array.mem_toList_iff.mp member)) _ _
  cases reuse with
  | false => exact plain
  | true =>
      rcases graph.build_linked share inputs outputs with ⟨cause, failed, alsoFailed⟩ | ⟨tape, reusing, _, _,
        plainBuilt, reusingBuilt, linked⟩
      · rw [alsoFailed]
        rwa [failed] at plain
      · rw [reusingBuilt]
        rw [plainBuilt] at plain
        exact linked.instructions.allowsOp plain

theorem WellFormed.exists_build (wellFormed : graph.WellFormed)
    (symbols : ∀ input ∈ inputs, graph.IsSymbol input) (distinct : inputs.Nodup)
    (declared : ∀ handle, vocabulary.symbol handle → handle ∈ inputs)
    (spelled : ∀ output ∈ outputs, graph.Spelled vocabulary output) (options : BuildOptions) :
    ∃ tape, graph.build options inputs outputs = .ok tape ∧
      ∀ instruction ∈ tape.instructions, vocabulary.AllowsOp instruction.op := by
  have ends := wellFormed.build_ends options inputs outputs fun output member _ => spelled output member
  have wellPosed := wellPosed_of_spelled symbols distinct declared spelled
  rcases (ends.mono (fun _ => wellPosed.not_rejects) fun _ => id).exists_ok with ⟨tape, allowed, built⟩
  exact ⟨tape, built, allowed⟩

/-! ## What is built was well posed -/

theorem DeclaredFrom.isSymbol {next : Nat} {blocks : List Block} (declared : graph.DeclaredFrom next inputs blocks) :
    ∀ input ∈ inputs, graph.IsSymbol input := by
  induction declared with
  | nil next => simp
  | cons name found isSymbol rest ih =>
      exact List.forall_mem_cons.mpr ⟨⟨_, entry_eq_ok.mp found, isSymbol⟩, ih⟩

theorem WellFormed.wellPosed_of_build (wellFormed : graph.WellFormed)
    (built : graph.build options inputs outputs = .ok tape) : graph.WellPosed inputs outputs := by
  rcases bind_eq_ok.mp built with ⟨⟨⟨blocks, values⟩, emission⟩, ran, _⟩
  have emitting := wellFormed.emitAll_ends options.shareValues inputs outputs fun _ _ => wellFormed.spelled_of_contains
  rw [ran] at emitting
  rcases emitAll_emitted ran with ⟨emitted, order, ordered, lowered⟩
  refine ⟨emitted.declared.isSymbol, emitted.nodup, emitting.1, ?_⟩
  rintro output member symbol reaches ⟨entry, found, isSymbol⟩
  rcases wellFormed.exists_postOrder emitting.1 with ⟨reversed, alsoOrdered, _, reached⟩
  cases ordered.symm.trans alsoOrdered
  have isVisited := (reached symbol).mpr ⟨output, member, reaches⟩
  rcases lowered symbol (List.mem_reverse.mpr isVisited) with ⟨values, isLowered⟩
  rcases emitted.accounts.accounted isLowered with ⟨block, isInput, _⟩ | ⟨other, isOther, explained⟩
  · exact (List.of_mem_zip isInput).1
  · cases (entry_eq_ok.mpr found).symm.trans isOther
    rw [explained.isSymbol_eq] at isSymbol
    cases isSymbol

theorem WellPosed.exists_build (wellPosed : graph.WellPosed inputs outputs) (wellFormed : graph.WellFormed)
    (options : BuildOptions) : ∃ tape, graph.build options inputs outputs = .ok tape := by
  have ends := wellFormed.build_ends options inputs outputs fun _ _ => wellFormed.spelled_of_contains
  rcases (ends.mono (fun _ => wellPosed.not_rejects) fun _ => id).exists_ok with ⟨tape, _, built⟩
  exact ⟨tape, built⟩

end Graph

end Autodiff
