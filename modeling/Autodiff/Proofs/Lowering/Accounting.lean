import Autodiff.Proofs.Lowering.Emission
import Autodiff.Proofs.Lowering.PostOrder

/-!
# What a whole emission leaves behind

Inputs are declared first, and then the nodes are lowered in post-order. Throughout, every lowered node is
a declared input or explained by instructions (`Emission.Accounts`); one visit preserves this, and so do
all visits. At the end the emitted program is numbered and has values for all outputs (`Graph.Emitted`).
-/

namespace Autodiff

variable {after before : Emission} {inputs outputs : List Handle} {blocks : List Block} {block : Block}

namespace Emission

open EmitM

/-- Every lowered node is declared or explained, and there is room for all nodes of the graph. -/
structure Accounts (graph : Graph) (declared : Handle → Array Nat → Prop)
    (emission : Emission) : Prop where
  consistent : emission.Consistent
  sized : emission.values.size = graph.size
  accounted : ∀ ⦃handle values⦄, emission.Lowered handle values → declared handle values ∨
    ∃ entry, graph.entry handle = .ok entry ∧
      Explains graph emission entry.pattern entry.node values.toList

variable {graph : Graph} {declared : Handle → Array Nat → Prop} {emission : Emission}
  {handle : Handle}

/-- The emission in which a node is lowered to some values. -/
def store (emission : Emission) (handle : Handle) (values : List Nat) : Emission :=
  { emission with values := emission.values.setIfInBounds handle.index (some values.toArray) }

theorem isNone_values_iff :
    (emission.values[handle.index]?.join).isNone = true ↔ ¬∃ values, emission.Lowered handle values := by
  unfold Lowered
  rcases emission.values[handle.index]? with _ | _ | values <;> simp

theorem run_visit_of_lowered (graph : Graph) (share : Bool) (isLowered : ∃ values, emission.Lowered handle values) :
    (EmitM.visit graph share handle).run emission = .ok ((), emission) := by
  change (if (emission.values[handle.index]?.join).isNone then _ else _ : EmitM Unit).run emission = _
  rw [if_neg (isNone_values_iff.not_left.mpr isLowered)]
  rfl

theorem run_visit_of_fresh (graph : Graph) (share : Bool) (fresh : ¬∃ values, emission.Lowered handle values) :
    (EmitM.visit graph share handle).run emission =
      (lower graph share handle).run emission >>= fun lowered => .ok ((), lowered.2.store handle lowered.1) := by
  change (if (emission.values[handle.index]?.join).isNone then _ else _ : EmitM Unit).run emission = _
  rw [if_pos (isNone_values_iff.mpr fresh)]
  rfl

theorem lowered_store {values : List Nat} (inside : handle.index < emission.values.size) :
    (emission.store handle values).Lowered handle values.toArray :=
  Array.getElem?_setIfInBounds_self_of_lt inside

theorem Lowered.of_store {values : List Nat} {other : Handle} {otherValues : Array Nat}
    (lowered : (emission.store handle values).Lowered other otherValues) :
    (handle = other ∧ otherValues = values.toArray) ∨ emission.Lowered other otherValues := by
  rcases of_getElem?_setIfInBounds lowered with ⟨same, sameValues⟩ | ⟨_, lowered⟩
  · exact .inl ⟨Handle.eq_of_index same, (Option.some.inj sameValues).symm⟩
  · exact .inr lowered

theorem grows_store (values : List Nat) (fresh : ¬∃ values, emission.Lowered handle values) :
    emission.Grows (emission.store handle values) := by
  refine ⟨rfl, fun _ member => member, Nat.le_refl _, ?_, Array.size_setIfInBounds ..⟩
  intro other otherValues lowered
  have different : handle.index ≠ other.index := fun same => fresh ⟨otherValues, by rwa [Lowered, same]⟩
  exact (Array.getElem?_setIfInBounds_ne different).trans lowered

theorem Accounts.store (accounts : Accounts graph declared emission) {values : List Nat}
    (fresh : ¬∃ values, emission.Lowered handle values)
    {entry : Entry} (found : graph.entry handle = .ok entry)
    (explained : Explains graph emission entry.pattern entry.node values) :
    Accounts graph declared (emission.store handle values) := by
  have grows := grows_store values fresh
  refine ⟨⟨accounts.consistent.numbered, accounts.consistent.constants,
    accounts.consistent.operations, ?_⟩, ?_, ?_⟩
  · intro other otherValues lowered value member
    rcases lowered.of_store with ⟨rfl, rfl⟩ | before
    · exact accounts.consistent.explains_lt explained value (by simpa using member)
    · exact accounts.consistent.lowered before value member
  · exact grows.sized.trans accounts.sized
  · intro other otherValues lowered
    rcases lowered.of_store with ⟨rfl, rfl⟩ | before
    · exact .inr ⟨entry, found, grows.explains explained⟩
    · rcases accounts.accounted before with isDeclared | ⟨otherEntry, otherFound, otherExplained⟩
      · exact .inl isDeclared
      · exact .inr ⟨otherEntry, otherFound, grows.explains otherExplained⟩

theorem index_lt_of_entry {entry : Entry} (found : graph.entry handle = .ok entry) :
    handle.index < graph.size := by
  unfold Graph.entry Graph.entry? at found
  split at found
  · rename_i inside
    exact (Array.getElem?_eq_some_iff.mp inside).1
  · cases found

theorem Accounts.visit (accounts : Accounts graph declared emission) {share : Bool} {result : Unit}
    (ran : (EmitM.visit graph share handle).run emission = .ok (result, after)) :
    Accounts graph declared after ∧ emission.Grows after ∧
      ∃ values, after.Lowered handle values := by
  by_cases isLowered : ∃ values, emission.Lowered handle values
  · rw [run_visit_of_lowered graph share isLowered] at ran
    cases ran
    exact ⟨accounts, .refl _, isLowered⟩
  · rw [run_visit_of_fresh graph share isLowered] at ran
    rcases bind_eq_ok.mp ran with ⟨⟨values, middle⟩, lowerRan, stored⟩
    cases stored
    rcases yields_lower graph share handle accounts.consistent trivial lowerRan with
      ⟨consistent, grows, sameValues, entry, found, explained⟩
    have middleAccounts : Accounts graph declared middle := by
      refine ⟨consistent, grows.sized.trans accounts.sized, ?_⟩
      intro other otherValues isLowered
      rw [Lowered, sameValues] at isLowered
      rcases accounts.accounted isLowered with isDeclared | ⟨otherEntry, otherFound, before⟩
      · exact .inl isDeclared
      · exact .inr ⟨otherEntry, otherFound, grows.explains before⟩
    have stillFresh : ¬∃ values, middle.Lowered handle values := by
      simpa only [Lowered, sameValues] using isLowered
    exact ⟨middleAccounts.store stillFresh found explained, grows.trans (grows_store values stillFresh),
      values.toArray, lowered_store (middleAccounts.sized ▸ index_lt_of_entry found)⟩

theorem Accounts.visits {order : List Handle} (accounts : Accounts graph declared emission) {share : Bool}
    {result : PUnit} (ran : (order.forM (EmitM.visit graph share)).run emission = .ok (result, after)) :
    Accounts graph declared after ∧ emission.Grows after ∧
      ∀ handle ∈ order, ∃ values, after.Lowered handle values := by
  induction order generalizing emission with
  | nil =>
      rcases run_pure_eq_ok.mp ran with ⟨_, rfl⟩
      exact ⟨accounts, .refl emission, by simp⟩
  | cons first order ih =>
      rcases run_bind_eq_ok.mp ran with ⟨_, middle, firstRan, restRan⟩
      rcases accounts.visit firstRan with ⟨middleAccounts, middleGrows, values, lowered⟩
      rcases ih middleAccounts restRan with ⟨last, lastGrows, allLowered⟩
      refine ⟨last, middleGrows.trans lastGrows, ?_⟩
      intro handle member
      rcases List.mem_cons.mp member with rfl | later
      · exact ⟨values, lastGrows.lowered lowered⟩
      · exact allLowered handle later

end Emission

/-! ## Inputs -/

namespace Graph

open Emission

/-- The blocks of the inputs from `next` on: each input is a symbol of the graph, and its entries are
numbered in order. -/
inductive DeclaredFrom (graph : Graph) : Nat → List Handle → List Block → Prop where
  | nil (next : Nat) : DeclaredFrom graph next [] []
  | cons {next : Nat} {input : Handle} {inputs : List Handle} {entry : Entry}
      {blocks : List Block} (name : String) (found : graph.entry input = .ok entry)
      (isSymbol : entry.node.isSymbol)
      (rest : DeclaredFrom graph (next + entry.pattern.nnz) inputs blocks) :
      DeclaredFrom graph next (input :: inputs)
        (⟨name, entry.pattern, (List.range entry.pattern.nnz).map (next + ·)⟩ :: blocks)

section Declared

variable {graph : Graph} {next : Nat} (declared : DeclaredFrom graph next inputs blocks)
include declared

theorem DeclaredFrom.length_eq :
    blocks.length = inputs.length := by
  induction declared with
  | nil next => rfl
  | cons name found isSymbol rest ih => simp [ih]

theorem DeclaredFrom.entry_of_mem {input : Handle} (member : (input, block) ∈ inputs.zip blocks) :
    ∃ entry, graph.entry input = .ok entry ∧ entry.node.isSymbol ∧
      block.pattern = entry.pattern ∧ block.slots.length = entry.pattern.nnz := by
  induction declared with
  | nil next => simp at member
  | cons name found isSymbol rest ih =>
      rcases List.mem_cons.mp member with same | later
      · cases same
        exact ⟨_, found, isSymbol, rfl, by simp⟩
      · exact ih later

theorem DeclaredFrom.flatMap_slots :
    blocks.flatMap Block.slots =
      (List.range (total (blocks.map fun block => block.slots.length))).map (next + ·) := by
  induction declared with
  | nil next => rfl
  | cons name found isSymbol rest ih =>
      rw [List.flatMap_cons, ih, List.map_cons, total_cons, List.length_map, List.length_range,
        List.range_add, List.map_append, List.map_map]
      simp only [Function.comp_def, Nat.add_assoc]

end Declared

/-- An emission without instructions. -/
structure Bare (emission : Emission) : Prop where
  instructions : emission.instructions = #[]
  constants : emission.constants = ∅
  operations : emission.operations = ∅

theorem declareInputs_cons {graph : Graph} {seen : List Handle} {input : Handle}
    (ran : (graph.declareInputs seen (input :: inputs)).run before = .ok (blocks, after)) :
    ∃ entry name rest, graph.entry input = .ok entry ∧ entry.node.isSymbol ∧ input ∉ seen ∧
      blocks = ⟨name, entry.pattern, (before.declare input entry.pattern.nnz).1⟩ :: rest ∧
      (graph.declareInputs (input :: seen) inputs).run
        (before.declare input entry.pattern.nnz).2 = .ok (rest, after) := by
  rw [declareInputs] at ran
  rcases run_bind_eq_ok.mp ran with ⟨_, _, checked, ran⟩
  rcases run_lift_eq_ok.mp checked with ⟨_, rfl⟩
  rcases run_bind_eq_ok.mp ran with ⟨entry, _, looked, ran⟩
  rcases run_lift_eq_ok.mp looked with ⟨found, rfl⟩
  by_cases isSymbol : entry.node.isSymbol
  · by_cases isSeen : input ∈ seen
    · simp only [isSymbol, isSeen, List.contains_eq_mem, Bool.not_true, Bool.false_eq_true,
        if_false, decide_true, if_true] at ran
      rcases run_bind_eq_ok.mp ran with ⟨_, _, thrown, _⟩
      exact absurd thrown run_throw_ne_ok
    · simp only [isSymbol, isSeen, List.contains_eq_mem, Bool.not_true, Bool.false_eq_true,
        if_false, decide_false] at ran
      rcases run_bind_eq_ok.mp ran with ⟨values, _, declared, ran⟩
      cases run_modifyGet_eq_ok.mp declared
      rcases run_bind_eq_ok.mp ran with ⟨rest, _, restRan, ran⟩
      rcases run_pure_eq_ok.mp ran with ⟨rfl, rfl⟩
      exact ⟨entry, _, rest, found, isSymbol, isSeen, rfl, restRan⟩
  · simp only [isSymbol, Bool.not_false, if_true] at ran
    rcases run_bind_eq_ok.mp ran with ⟨_, _, thrown, _⟩
    exact absurd thrown run_throw_ne_ok

/-- What the declaration of inputs leaves behind. -/
structure Declares (graph : Graph) (seen inputs : List Handle) (blocks : List Block)
    (before after : Emission) : Prop where
  bare : Bare after
  declared : DeclaredFrom graph before.numInputs inputs blocks
  numInputs_eq : after.numInputs =
    before.numInputs + total (blocks.map fun block => block.slots.length)
  sized : after.values.size = before.values.size
  fresh : ∀ input ∈ inputs, input ∉ seen
  nodup : inputs.Nodup
  others : ∀ ⦃handle⦄, handle ∉ inputs →
    after.values[handle.index]? = before.values[handle.index]?
  lowered : ∀ ⦃input block⦄, (input, block) ∈ inputs.zip blocks →
    input.index < before.values.size → after.Lowered input block.slots.toArray

theorem declareInputs_spec {graph : Graph} {seen : List Handle} (bare : Bare before)
    (ran : (graph.declareInputs seen inputs).run before = .ok (blocks, after)) :
    Declares graph seen inputs blocks before after := by
  induction inputs generalizing seen blocks before with
  | nil =>
      rcases run_pure_eq_ok.mp ran with ⟨rfl, rfl⟩
      exact ⟨bare, .nil _, rfl, rfl, by simp, .nil, fun _ _ => rfl, by simp⟩
  | cons input inputs ih =>
      rcases declareInputs_cons ran with ⟨entry, name, rest, found, isSymbol, isFresh, rfl, restRan⟩
      have stillBare : Bare (before.declare input entry.pattern.nnz).2 :=
        ⟨bare.instructions, bare.constants, bare.operations⟩
      have later := ih stillBare restRan
      have notLater : input ∉ inputs := by
        intro member
        exact later.fresh input member (List.mem_cons_self ..)
      have indexNe : ∀ ⦃handle : Handle⦄, handle ≠ input → input.index ≠ handle.index := by
        rintro ⟨_⟩ different same
        cases input
        exact different (by simp_all)
      refine ⟨later.bare, .cons name found isSymbol later.declared, ?_, ?_, ?_, ?_, ?_, ?_⟩
      · rw [later.numInputs_eq]
        simp only [Emission.declare, List.map_cons, total_cons, List.length_map,
          List.length_range, Nat.add_assoc]
      · exact later.sized.trans (Array.size_setIfInBounds ..)
      · intro other member
        rcases List.mem_cons.mp member with rfl | inRest
        · exact isFresh
        · exact fun isSeen => later.fresh other inRest (List.mem_cons_of_mem _ isSeen)
      · exact List.nodup_cons.mpr ⟨notLater, later.nodup⟩
      · intro handle notInput
        rw [List.mem_cons, not_or] at notInput
        rw [later.others notInput.2]
        exact Array.getElem?_setIfInBounds_ne (indexNe notInput.1)
      · intro other block member inside
        rw [List.zip_cons_cons, List.mem_cons, Prod.mk.injEq] at member
        rcases member with ⟨rfl, rfl⟩ | inRest
        · exact (later.others notLater).trans (Array.getElem?_setIfInBounds_self_of_lt inside)
        · exact later.lowered inRest (by simpa [Emission.declare] using inside)

theorem Declares.lowered_iff {graph : Graph}
    (declares : Declares graph [] inputs blocks { values := Array.replicate graph.size none } after) {handle : Handle}
    {values : Array Nat} :
    after.Lowered handle values ↔
      ∃ block, (handle, block) ∈ inputs.zip blocks ∧ values = block.slots.toArray := by
  have inside : ∀ ⦃input block⦄, (input, block) ∈ inputs.zip blocks →
      input.index < (Array.replicate graph.size (none : Option (Array Nat))).size := by
    intro input block member
    rcases declares.declared.entry_of_mem member with ⟨entry, found, _⟩
    rw [Array.size_replicate]
    exact index_lt_of_entry found
  constructor
  · intro lowered
    by_cases isInput : handle ∈ inputs
    · rcases List.mem_iff_getElem.mp isInput with ⟨index, below, rfl⟩
      have blockBelow : index < blocks.length := by rw [declares.declared.length_eq]; exact below
      have member : (inputs[index], blocks[index]) ∈ inputs.zip blocks := by
        rw [List.mem_iff_getElem]
        refine ⟨index, ?_, List.getElem_zip⟩
        rw [List.length_zip]
        exact Nat.lt_min.mpr ⟨below, blockBelow⟩
      have also := declares.lowered member (inside member)
      refine ⟨blocks[index], member, ?_⟩
      rw [Lowered, lowered] at also
      simpa using also
    · rw [Lowered, declares.others isInput] at lowered
      simp [Array.getElem?_replicate] at lowered
  · rintro ⟨block, member, rfl⟩
    exact declares.lowered member (inside member)

theorem Declares.lt_numInputs {graph : Graph} (declares : Declares graph [] inputs blocks before after)
    (blockMem : block ∈ blocks) {value : Nat} (valueMem : value ∈ block.slots) :
    value < after.numInputs := by
  have member : value ∈ blocks.flatMap Block.slots :=
    List.mem_flatMap.mpr ⟨block, blockMem, valueMem⟩
  rw [declares.declared.flatMap_slots, List.mem_map] at member
  rcases member with ⟨offset, below, rfl⟩
  rw [declares.numInputs_eq]
  have := List.mem_range.mp below
  omega

/-- What a successful emission leaves behind. -/
structure Emitted (graph : Graph) (inputs outputs : List Handle) (blocks : List Block)
    (values : List (List Nat)) (emission : Emission) : Prop where
  accounts : Accounts graph (fun handle values => ∃ block, (handle, block) ∈ inputs.zip blocks ∧
    values = block.slots.toArray) emission
  declared : DeclaredFrom graph 0 inputs blocks
  nodup : inputs.Nodup
  numInputs_eq : emission.numInputs = total (blocks.map fun block => block.slots.length)
  values_eq : values = outputs.map fun output => (emission.lowered output).toList

theorem emitAll_emitted {graph : Graph} {share : Bool} {values : List (List Nat)} {emission : Emission}
    (ran : (graph.emitAll share inputs outputs).run { values := Array.replicate graph.size none } =
      .ok ((blocks, values), emission)) :
    Emitted graph inputs outputs blocks values emission ∧
      ∃ order, graph.postOrder outputs = .ok order ∧
        ∀ handle ∈ order, ∃ values, emission.Lowered handle values := by
  rcases run_bind_eq_ok.mp ran with ⟨blocks', declaredState, declareRan, ran⟩
  rcases run_bind_eq_ok.mp ran with ⟨_, checkedState, checked, ran⟩
  rcases run_lift_eq_ok.mp checked with ⟨_, rfl⟩
  rcases run_bind_eq_ok.mp ran with ⟨order, _, ordered, ran⟩
  rcases run_lift_eq_ok.mp ordered with ⟨postOrder, rfl⟩
  rcases run_bind_eq_ok.mp ran with ⟨_, final, visited, ran⟩
  rcases run_bind_eq_ok.mp ran with ⟨current, last, got, ran⟩
  rcases run_get_eq_ok.mp got with ⟨rfl, rfl⟩
  rcases run_pure_eq_ok.mp ran with ⟨same, rfl⟩
  cases same
  have declares := declareInputs_spec ⟨rfl, rfl, rfl⟩ declareRan
  have start : Accounts graph (fun handle values => ∃ block,
      (handle, block) ∈ inputs.zip blocks ∧ values = block.slots.toArray) declaredState := by
    refine ⟨⟨?_, ?_, ?_, ?_⟩, ?_, ?_⟩
    · rw [declares.bare.instructions]
      trivial
    · intro bits value found
      simp [declares.bare.constants] at found
    · intro op first second value found
      simp [declares.bare.operations] at found
    · intro handle values lowered value member
      rcases declares.lowered_iff.mp lowered with ⟨block, blockMem, rfl⟩
      have below := declares.lt_numInputs (List.of_mem_zip blockMem).2 (by simpa using member)
      exact Nat.lt_of_lt_of_le below (Nat.le_add_right ..)
    · rw [declares.sized, Array.size_replicate]
    · intro handle values lowered
      exact .inl (declares.lowered_iff.mp lowered)
  rcases start.visits visited with ⟨accounts, grows, allLowered⟩
  refine ⟨⟨accounts, declares.declared, declares.nodup, ?_, rfl⟩, order, postOrder, allLowered⟩
  rw [grows.numInputs_eq, declares.numInputs_eq, Nat.zero_add]

variable {graph : Graph} {values : List (List Nat)} {emission : Emission}
  (emitted : Emitted graph inputs outputs blocks values emission)
include emitted

theorem Emitted.inputSlots :
    blocks.flatMap Block.slots = List.range emission.numInputs := by
  rw [emitted.declared.flatMap_slots, emitted.numInputs_eq]
  simp

theorem Emitted.slot_lt (blockMem : block ∈ blocks) {slot : Nat} (slotMem : slot ∈ block.slots) :
    slot < emission.numInputs := by
  rw [← List.mem_range, ← emitted.inputSlots]
  exact List.mem_flatMap.mpr ⟨block, blockMem, slotMem⟩

theorem Emitted.outputs_lt :
    ∀ block ∈ values, ∀ value ∈ block,
      value < emission.numInputs + emission.instructions.toList.length := by
  intro block blockMem value valueMem
  rw [emitted.values_eq, List.mem_map] at blockMem
  rcases blockMem with ⟨output, _, rfl⟩
  rw [Array.length_toList]
  rcases found : emission.values[output.index]? with _ | _ | entries
  · simp [Emission.lowered, found] at valueMem
  · simp [Emission.lowered, found] at valueMem
  · refine emitted.accounts.consistent.lowered found value ?_
    simpa [Emission.lowered, found] using valueMem

end Graph

end Autodiff
