import Autodiff.Proofs.Graph.Development
import Autodiff.Proofs.Lowering.Accounting

/-!
# Later graphs are lowered alike

What is lowered from a graph is lowered from every later graph in the same way. The arrays of a later graph are
longer, but the walk and the emission only look at nodes that the first graph has: a mark and a list of values that
are there in the shorter array are the same in the longer one. Each step of the walk and each computation of the
emission keeps this up (`EmitM.Repeats`), so both builds return the same tape.
-/

namespace Autodiff

/-- A longer array has the elements of a shorter one. -/
def Prolonged {α : Type} (shorter longer : Array α) : Prop :=
  ∀ ⦃index : Nat⦄ ⦃element : α⦄, shorter[index]? = some element → longer[index]? = some element

namespace Prolonged

variable {α : Type} {shorter longer : Array α}

theorem replicate {count count' : Nat} (fits : count ≤ count') (element : α) :
    Prolonged (Array.replicate count element) (Array.replicate count' element) := by
  intro index found isFound
  rw [Array.getElem?_replicate] at isFound ⊢
  split at isFound
  · rw [if_pos (by omega)]
    exact isFound
  · cases isFound

theorem setIfInBounds (prolonged : Prolonged shorter longer) (index : Nat) (element : α) :
    Prolonged (shorter.setIfInBounds index element) (longer.setIfInBounds index element) := by
  intro other found isFound
  rcases of_getElem?_setIfInBounds isFound with ⟨rfl, rfl⟩ | ⟨different, isFound⟩
  · have inside : index < shorter.size := by simpa using (Array.getElem?_eq_some_iff.mp isFound).1
    have longerInside := (Array.getElem?_eq_some_iff.mp (prolonged (Array.getElem?_eq_getElem inside))).1
    exact Array.getElem?_setIfInBounds_self_of_lt longerInside
  · exact (Array.getElem?_setIfInBounds_ne different).trans (prolonged isFound)

end Prolonged

/-! ## Post-order -/

section Walk

variable {graph : Graph} {marks : Array Mark} {order pending : List Handle} {stack : List Frame} {node operand : Handle}
  {entry : Entry}

theorem walk_skip (isDone : marks[operand.index]? = some .done) (isEntry : graph.entry? operand = some entry) :
    walk graph marks order (⟨node, operand :: pending⟩ :: stack) =
      walk graph marks order (⟨node, pending⟩ :: stack) := by
  rw [walk]
  split <;> simp_all

theorem walk_enter (isFresh : marks[operand.index]? = some .fresh) (isEntry : graph.entry? operand = some entry) :
    walk graph marks order (⟨node, operand :: pending⟩ :: stack) =
      walk graph (marks.setIfInBounds operand.index .active) order
        (⟨operand, entry.node.operands⟩ :: ⟨node, pending⟩ :: stack) := by
  rw [walk]
  split <;> simp_all

end Walk

namespace Graph.Develops

variable {before after : Graph}

theorem entry? (develops : before.Develops after) {handle : Handle} {entry : Entry}
    (found : before.entry? handle = some entry) :
    ∃ later, after.entry? handle = some later ∧ later.node = entry.node := by
  rcases develops.entry (entry_eq_ok.mpr found) with ⟨later, isLater, sameNode, _⟩
  exact ⟨later, entry_eq_ok.mp isLater, sameNode⟩

theorem walk_eq_ok (develops : before.Develops after) {marks marks' final : Array Mark} {order last : List Handle}
    {stack : List Frame} (prolonged : Prolonged marks marks')
    (walked : walk before marks order stack = .ok (final, last)) :
    ∃ final', walk after marks' order stack = .ok (final', last) ∧ Prolonged final final' := by
  fun_induction walk before marks order stack generalizing marks' with
  | case1 marks order =>
      cases walked
      exact ⟨marks', by rw [walk], prolonged⟩
  | case2 marks order node stack ih =>
      rw [walk]
      exact ih (prolonged.setIfInBounds _ _) walked
  | case3 marks order node operand pending stack entry isDone isEntry ih =>
      rcases develops.entry? isEntry with ⟨later, isLater, _⟩
      rw [walk_skip (prolonged isDone) isLater]
      exact ih prolonged walked
  | case4 => cases walked
  | case5 marks order node operand pending stack entry isFresh isEntry ih =>
      rcases develops.entry? isEntry with ⟨later, isLater, sameNode⟩
      rw [walk_enter (prolonged isFresh) isLater, sameNode]
      exact ih (prolonged.setIfInBounds _ _) walked
  | case6 => cases walked

theorem walkRoots_eq_ok (develops : before.Develops after) {marks marks' : Array Mark} {order last roots : List Handle}
    (prolonged : Prolonged marks marks') (walked : walkRoots before marks order roots = .ok last) :
    walkRoots after marks' order roots = .ok last := by
  induction roots generalizing marks marks' order with
  | nil => exact walked
  | cons root roots ih =>
      rw [walkRoots] at walked
      split at walked
      · rename_i entry isFresh isEntry
        rcases bind_eq_ok.mp walked with ⟨⟨middle, between⟩, rootWalked, restWalked⟩
        rcases develops.entry? isEntry with ⟨later, isLater, sameNode⟩
        rw [walkRoots, prolonged isFresh, isLater]
        rcases develops.walk_eq_ok (prolonged.setIfInBounds _ _) rootWalked with ⟨middle', laterWalked, stillProlonged⟩
        simp only [sameNode, laterWalked, ok_bind]
        exact ih stillProlonged restWalked
      · rename_i mark entry notFresh isMarked isEntry
        rcases develops.entry? isEntry with ⟨later, isLater, _⟩
        rw [walkRoots, prolonged isMarked, isLater]
        cases mark with
        | fresh => exact (notFresh rfl).elim
        | active | done => exact ih prolonged walked
      · cases walked

theorem postOrder_eq_ok (develops : before.Develops after) {roots order : List Handle}
    (ordered : before.postOrder roots = .ok order) : after.postOrder roots = .ok order := by
  rcases bind_eq_ok.mp ordered with ⟨reversed, walked, returned⟩
  exact bind_eq_ok.mpr ⟨reversed, develops.walkRoots_eq_ok (.replicate develops.size_le Mark.fresh) walked, returned⟩

end Graph.Develops

/-! ## Emission -/

/-- What has been emitted is the same, and the second emission has the values of the first one. -/
structure Emission.Same (size : Nat) (first second : Emission) : Prop where
  rest : second = { first with values := second.values }
  sized : first.values.size = size
  prolonged : Prolonged first.values second.values

namespace Emission

variable {size : Nat} {first second : Emission}

theorem Same.store (same : first.Same size second) (index : Nat) (values : Array Nat) :
    Same size { first with values := first.values.setIfInBounds index (some values) }
      { second with values := second.values.setIfInBounds index (some values) } where
  rest := by conv_lhs => rw [same.rest]
  sized := (Array.size_setIfInBounds ..).trans same.sized
  prolonged := same.prolonged.setIfInBounds index (some values)

theorem constant_values (emission : Emission) (share : Bool) (literal : Float)
    (values : Array (Option (Array Nat))) :
    ({ emission with values } : Emission).constant share literal =
      ((emission.constant share literal).1, { (emission.constant share literal).2 with values }) := by
  simp only [constant]
  cases (if share then emission.constants[literal.toBits]? else none) <;> rfl

theorem operation_values (emission : Emission) (share : Bool) (op : Opcode) (left right : Nat)
    (values : Array (Option (Array Nat))) :
    ({ emission with values } : Emission).operation share op left right =
      ((emission.operation share op left right).1, { (emission.operation share op left right).2 with values }) := by
  have sorted : ∀ left right, ({ emission with values } : Emission).sortedOperation share op left right =
      ((emission.sortedOperation share op left right).1,
        { (emission.sortedOperation share op left right).2 with values }) := by
    intro left right
    simp only [sortedOperation]
    cases (if share then emission.operations[(op, left, right)]? else none) <;> rfl
  simp only [operation]
  split <;> exact sorted ..

end Emission

namespace EmitM

open Emission

/-- On emissions that are the same, the second computation does what the first one does if that succeeds. -/
def Repeats {α : Type} (size : Nat) (first second : EmitM α) : Prop :=
  ∀ ⦃before before' result after⦄, Same size before before' → first.run before = .ok (result, after) →
    ∃ after', second.run before' = .ok (result, after') ∧ Same size after after'

namespace Repeats

variable {α β : Type} {size : Nat}

theorem pure (value : α) : Repeats size (pure value) (pure value) := by
  intro before before' result after same ran
  rcases run_pure_eq_ok.mp ran with ⟨rfl, rfl⟩
  exact ⟨before', rfl, same⟩

theorem throw (cause : Error) (second : EmitM α) : Repeats size (throw cause) second :=
  fun _ _ _ _ _ ran => absurd ran run_throw_ne_ok

theorem bind {first second : EmitM α} {next next' : α → EmitM β} (start : Repeats size first second)
    (continued : ∀ value, Repeats size (next value) (next' value)) :
    Repeats size (first >>= next) (second >>= next') := by
  intro before before' result after same ran
  rcases run_bind_eq_ok.mp ran with ⟨value, middle, firstRan, nextRan⟩
  rcases start same firstRan with ⟨middle', firstRan', middleSame⟩
  rcases continued value middleSame nextRan with ⟨after', nextRan', afterSame⟩
  exact ⟨after', run_bind_eq_ok.mpr ⟨value, middle', firstRan', nextRan'⟩, afterSame⟩

theorem lift_bind {first : Except Error α} {second : Except Error β} {γ : Type} {next : α → EmitM γ}
    {next' : β → EmitM γ}
    (continued : ∀ value, first = .ok value → ∃ value', second = .ok value' ∧
      Repeats size (next value) (next' value')) :
    Repeats size (liftM first >>= next) (liftM second >>= next') := by
  intro before before' result after same ran
  rcases run_bind_eq_ok.mp ran with ⟨value, middle, firstRan, nextRan⟩
  rcases run_lift_eq_ok.mp firstRan with ⟨found, rfl⟩
  rcases continued value found with ⟨value', found', repeats⟩
  rcases repeats same nextRan with ⟨after', nextRan', afterSame⟩
  exact ⟨after', run_bind_eq_ok.mpr ⟨value', before', run_lift_eq_ok.mpr ⟨found', rfl⟩, nextRan'⟩, afterSame⟩

theorem modifyGet {update : Emission → α × Emission}
    (untouched : ∀ emission, (update emission).2.values = emission.values)
    (same : ∀ (emission : Emission) (values : Array (Option (Array Nat))), update { emission with values } =
      ((update emission).1, { (update emission).2 with values })) :
    Repeats size (modifyGet update) (modifyGet update) := by
  intro before before' result after isSame ran
  have updated := run_modifyGet_eq_ok.mp ran
  have updated' : update before' = (result, { after with values := before'.values }) := by
    conv_lhs => rw [isSame.rest, same, updated]
  have kept : after.values = before.values := by
    rw [← untouched before, updated]
  refine ⟨{ after with values := before'.values }, run_modifyGet_eq_ok.mpr updated', rfl, ?_, ?_⟩
  · rw [kept, isSame.sized]
  · rw [kept]
    exact isSame.prolonged

theorem check_then {condition : Prop} [Decidable condition] {cause : Error} {next next' : PUnit → EmitM α}
    (repeats : Repeats size (next ⟨⟩) (next' ⟨⟩)) :
    Repeats size (if condition then (MonadExcept.throw cause : EmitM PUnit) >>= next else next ⟨⟩)
      (if condition then (MonadExcept.throw cause : EmitM PUnit) >>= next' else next' ⟨⟩) := by
  split
  · exact (throw cause _).bind fun _ => repeats
  · exact repeats

theorem mapM {elements : List α} {emit emit' : α → EmitM β}
    (each : ∀ element, Repeats size (emit element) (emit' element)) :
    Repeats size (elements.mapM emit) (elements.mapM emit') := by
  induction elements with
  | nil => exact .pure []
  | cons element elements ih =>
      simp only [List.mapM_cons]
      exact (each element).bind fun _ => ih.bind fun _ => .pure _

theorem forM {elements : List α} {emit emit' : α → EmitM PUnit}
    (each : ∀ element, Repeats size (emit element) (emit' element)) :
    Repeats size (elements.forM emit) (elements.forM emit') := by
  induction elements with
  | nil => exact .pure _
  | cons element elements ih => exact (each element).bind fun _ => ih

end Repeats

variable {size : Nat}

theorem repeats_constant (share : Bool) (literal : Float) :
    Repeats size (modifyGet fun emission => emission.constant share literal)
      (modifyGet fun emission => emission.constant share literal) := by
  refine .modifyGet (fun emission => ?_) fun emission values => emission.constant_values share literal values
  rw [constant]
  split <;> rfl

theorem repeats_operation (share : Bool) (op : Opcode) (left right : Nat) :
    Repeats size (modifyGet fun emission => emission.operation share op left right)
      (modifyGet fun emission => emission.operation share op left right) := by
  refine .modifyGet (fun emission => ?_) fun emission values => emission.operation_values share op left right values
  simp only [operation, sortedOperation]
  repeat' split
  all_goals rfl

theorem repeats_declare (input : Handle) (count : Nat) :
    Repeats size (modifyGet fun emission => emission.declare input count)
      (modifyGet fun emission => emission.declare input count) := by
  intro before before' result after same ran
  cases run_modifyGet_eq_ok.mp ran
  have stored := same.store input.index ((List.range count).map (before.numInputs + ·)).toArray
  have sameInputs : before'.numInputs = before.numInputs := by rw [same.rest]
  refine ⟨(before'.declare input count).2, run_modifyGet_eq_ok.mpr (Prod.ext ?_ rfl), ?_, stored.sized, ?_⟩
  · simp only [declare, sameInputs]
  · simp only [declare, sameInputs]
    conv_lhs => rw [same.rest]
  · simpa only [declare, sameInputs] using stored.prolonged

theorem lowered_of_getElem? {emission : Emission} {handle : Handle} {index value : Nat}
    (found : (emission.lowered handle)[index]? = some value) :
    ∃ values, emission.values[handle.index]? = some (some values) ∧ values[index]? = some value := by
  rw [Emission.lowered] at found
  rcases lowered : emission.values[handle.index]? with _ | _ | values
  · simp [lowered] at found
  · simp [lowered] at found
  · exact ⟨values, rfl, by simpa [lowered] using found⟩

theorem repeats_stored (handle : Handle) (index : Nat) : Repeats size (stored handle index) (stored handle index) := by
  intro before before' result after same ran
  have runs {emission : Emission} {value : Nat} (found : (emission.lowered handle)[index]? = some value) :
      (stored handle index).run emission = .ok (value, emission) := by
    simp only [stored, StateT.run_bind, StateT.run_get, pure_bind, found]
    rfl
  cases found : (before.lowered handle)[index]? with
  | none =>
      simp only [stored, StateT.run_bind, StateT.run_get, pure_bind, found] at ran
      cases ran
  | some value =>
      cases (runs found).symm.trans ran
      rcases lowered_of_getElem? found with ⟨values, lowered, isValue⟩
      have alsoFound : (before'.lowered handle)[index]? = some result := by
        simp [Emission.lowered, same.prolonged lowered, isValue]
      exact ⟨before', runs alsoFound, same⟩

end EmitM

namespace Graph.Develops

open EmitM

variable {before after : Graph} (develops : before.Develops after) {size : Nat}
include develops

theorem repeats_element (share : Bool) (operand : Handle) (row column : Nat) :
    Repeats size (element before share operand row column) (element after share operand row column) := by
  refine .lift_bind fun entry found => ?_
  rcases develops.entry found with ⟨later, isLater, _, samePattern⟩
  refine ⟨later, isLater, ?_⟩
  rw [samePattern]
  split
  · exact repeats_stored operand _
  · exact repeats_constant share 0

theorem exists_entries {parts : List Handle} {entries : List Entry} (found : parts.mapM before.entry = .ok entries) :
    ∃ later, parts.mapM after.entry = .ok later ∧ later.map Entry.pattern = entries.map Entry.pattern := by
  have each : List.Forall₂ (fun part entry => ∃ later, after.entry part = .ok later ∧ later.pattern = entry.pattern)
      parts entries := by
    refine (mapM_eq_ok.mp found).imp fun part entry isEntry => ?_
    rcases develops.entry isEntry with ⟨later, isLater, _, samePattern⟩
    exact ⟨later, isLater, samePattern⟩
  rcases forall₂_split each with ⟨laters, areLater, samePatterns⟩
  refine ⟨laters, mapM_eq_ok.mpr areLater, ?_⟩
  rw [← List.forall₂_eq_eq_eq, List.forall₂_map_left_iff, List.forall₂_map_right_iff]
  exact samePatterns

theorem repeats_lowerNode (share : Bool) (handle : Handle) (pattern : Pattern) (node : Node) :
    Repeats size (lowerNode before share handle pattern node) (lowerNode after share handle pattern node) := by
  cases node with
  | symbol index => exact .throw _ _
  | constant literal => exact (repeats_constant share literal).bind fun _ => .pure _
  | zeros nrow ncol => exact .pure _
  | unary op operand =>
      exact .mapM fun position => (develops.repeats_element share operand _ _).bind fun value =>
        repeats_operation share _ _ _
  | binary op lhs rhs =>
      exact .mapM fun position => (develops.repeats_element share lhs _ _).bind fun first =>
        (develops.repeats_element share rhs _ _).bind fun second => repeats_operation share _ _ _
  | concat kind parts =>
      refine .lift_bind fun entries found => ?_
      rcases develops.exists_entries found with ⟨later, isLater, samePatterns⟩
      refine ⟨later, isLater, .lift_bind fun sources combined => ⟨sources, samePatterns ▸ combined, ?_⟩⟩
      refine .mapM fun source => ?_
      split
      · exact repeats_stored _ _
      · exact .throw _ _
  | transpose operand =>
      refine .lift_bind fun entry found => ?_
      rcases develops.entry found with ⟨later, isLater, _, samePattern⟩
      refine ⟨later, isLater, .lift_bind fun sources transposed => ⟨sources, samePattern ▸ transposed, ?_⟩⟩
      exact .mapM fun index => repeats_stored operand index
  | nonzero operand index => exact (repeats_stored operand index).bind fun _ => .pure _

theorem repeats_lower (share : Bool) (handle : Handle) :
    Repeats size (lower before share handle) (lower after share handle) := by
  refine .lift_bind fun entry found => ?_
  rcases develops.entry found with ⟨later, isLater, sameNode, samePattern⟩
  refine ⟨later, isLater, ?_⟩
  rw [sameNode, samePattern]
  exact develops.repeats_lowerNode share handle _ _

theorem repeats_visit (share : Bool) (handle : Handle) :
    Repeats before.size (visit before share handle) (visit after share handle) := by
  intro first second result last same ran
  by_cases isLowered : ∃ values, first.Lowered handle values
  · rw [Emission.run_visit_of_lowered before share isLowered] at ran
    cases ran
    exact ⟨second, Emission.run_visit_of_lowered after share (isLowered.imp fun _ lowered => same.prolonged lowered), same⟩
  · rw [Emission.run_visit_of_fresh before share isLowered] at ran
    rcases bind_eq_ok.mp ran with ⟨⟨values, middle⟩, lowered, returned⟩
    cases returned
    rcases run_bind_eq_ok.mp lowered with ⟨entry, _, looked, _⟩
    have inside : handle.index < first.values.size := by
      rw [same.sized]
      exact Emission.index_lt_of_entry (run_lift_eq_ok.mp looked).1
    have alsoFresh : ¬∃ values, second.Lowered handle values := by
      simpa only [Emission.Lowered, same.prolonged (Array.getElem?_eq_getElem inside),
        Array.getElem?_eq_getElem inside] using isLowered
    rcases develops.repeats_lower share handle same lowered with ⟨middle', lowered', middleSame⟩
    refine ⟨_, ?_, middleSame.store handle.index values.toArray⟩
    rw [Emission.run_visit_of_fresh after share alsoFresh, lowered']
    rfl

theorem repeats_declareInputs (seen inputs : List Handle) :
    Repeats before.size (before.declareInputs seen inputs) (after.declareInputs seen inputs) := by
  induction inputs generalizing seen with
  | nil => exact .pure []
  | cons input inputs ih =>
      refine .lift_bind fun _ checked => ⟨(), develops.check checked, .lift_bind fun entry found => ?_⟩
      rcases develops.entry found with ⟨later, isLater, sameNode, samePattern⟩
      have sameName := develops.names ⟨entry, entry_eq_ok.mp found, rfl, rfl⟩
      refine ⟨later, isLater, ?_⟩
      rw [sameNode, samePattern, sameName]
      apply Repeats.check_then
      apply Repeats.check_then
      exact (repeats_declare input _).bind fun _ => (ih (input :: seen)).bind fun _ => .pure _

theorem repeats_emitAll (share : Bool) (inputs outputs : List Handle) :
    Repeats before.size (before.emitAll share inputs outputs) (after.emitAll share inputs outputs) := by
  refine (develops.repeats_declareInputs [] inputs).bind fun blocks => ?_
  refine .lift_bind fun _ checked => ⟨⟨⟩, forM_eq_ok.mpr fun output member => ?_, ?_⟩
  · exact develops.check (forM_eq_ok.mp checked output member)
  refine .lift_bind fun order ordered => ⟨order, develops.postOrder_eq_ok ordered, ?_⟩
  refine (Repeats.forM fun handle => develops.repeats_visit share handle).bind fun _ => ?_
  intro first second result last same ran
  cases ran
  refine ⟨second, ?_, same⟩
  have sameValues : ∀ output ∈ outputs, second.lowered output = first.lowered output := by
    intro output member
    have inside : output.index < first.values.size :=
      same.sized ▸ check_eq_ok.mp (forM_eq_ok.mp checked output member)
    rw [Emission.lowered, Emission.lowered, same.prolonged (Array.getElem?_eq_getElem inside),
      Array.getElem?_eq_getElem inside]
  have sameLists := List.map_congr_left fun output member => congrArg Array.toList (sameValues output member)
  exact congrArg (fun values => Except.ok ((blocks, values), second)) sameLists

theorem outputBlocks_eq {outputs : List Handle} {slots : List (List Nat)}
    {blocks : List Block} {index : Nat} (found : before.outputBlocks index outputs slots = .ok blocks) :
    after.outputBlocks index outputs slots = .ok blocks := by
  induction outputs generalizing index slots blocks with
  | nil => exact found
  | cons output outputs ih =>
      rcases slots with _ | ⟨first, slots⟩
      · exact found
      · rcases bind_eq_ok.mp found with ⟨entry, isEntry, found⟩
        rcases bind_eq_ok.mp found with ⟨rest, restFound, returned⟩
        rcases develops.entry isEntry with ⟨later, isLater, sameNode, samePattern⟩
        have sameName := develops.names ⟨entry, entry_eq_ok.mp isEntry, rfl, rfl⟩
        refine bind_eq_ok.mpr ⟨later, isLater, bind_eq_ok.mpr ⟨rest, ih restFound, ?_⟩⟩
        rw [sameNode, samePattern, sameName]
        exact returned

theorem build_eq_ok {options : BuildOptions} {inputs outputs : List Handle} {tape : Tape}
    (built : before.build options inputs outputs = .ok tape) : after.build options inputs outputs = .ok tape := by
  rcases bind_eq_ok.mp built with ⟨⟨⟨blocks, values⟩, emission⟩, ran, built⟩
  rcases bind_eq_ok.mp built with ⟨outputBlocks, found, returned⟩
  have start : Emission.Same before.size { values := Array.replicate before.size none }
      { values := Array.replicate after.size none } :=
    ⟨rfl, Array.size_replicate, .replicate develops.size_le none⟩
  rcases develops.repeats_emitAll options.shareValues inputs outputs start ran with ⟨emission', ran', same⟩
  refine bind_eq_ok.mpr ⟨_, ran', ?_⟩
  rw [same.rest]
  exact bind_eq_ok.mpr ⟨outputBlocks, develops.outputBlocks_eq found, returned⟩

end Graph.Develops

end Autodiff
