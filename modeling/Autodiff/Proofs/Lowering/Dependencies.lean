import Autodiff.Proofs.Dependency.Propagation
import Autodiff.Proofs.Lowering.Success
import Autodiff.Proofs.Lowering.Validation
import Mathlib

/-!
# Dependencies survive lowering

Data flow in an emitted program is a meaning of the opcodes: a value is marked if one of its operands is. If
the one entry of an input is marked that we ask for, the marked values of lowered nodes are those of the
stored entries that reach it, because an element reaches it if it reads an element that does (`Element.marked_iff`).

Since dropping dead instructions and reusing slots keep the data flow between inputs and outputs, the Jacobian
patterns of a built tape store the dependencies between the entries of the expressions, whatever the options.
-/

namespace Autodiff

variable {known : Pattern} {handle input output : Handle} {blocks : List Block}

/-- A value is marked if one of its operands is. -/
def influence : Meaning Prop where
  literal _ := False
  unary _ operand := operand
  binary _ left right := left ∨ right

theorem inherits_influence : influence.Inherits id where
  literal _ := not_false
  unary _ _ := .rfl
  binary _ _ _ := .rfl

theorem executeAll_influence {instructions : List Instruction} {source target : Nat} :
    executeAll influence instructions (· = source) target ↔ Passes instructions source target := by
  refine (marked_executeAll inherits_influence).trans ?_
  simp

namespace Graph

variable {graph : Graph} {target : Handle × Nat}

/-- An element is marked if it reads a marked one. -/
theorem Element.marked_iff {node : Node} {position : Nat × Nat} {marked : Prop}
    (isElement : graph.Element influence (graph.PlaceReaches target) node position marked)
    (wellFormed : graph.WellFormed) :
    marked ↔ ∃ operand place, graph.Reads node position operand place ∧ graph.PlaceReaches target operand place := by
  cases isElement with
  | constant =>
      constructor
      · exact False.elim
      · rintro ⟨_, _, ⟨⟩, _⟩
  | unary =>
      rw [exists_reads_unary]
      rfl
  | binary leftKnown rightKnown => exact (exists_reads_binary leftKnown rightKnown).symm
  | part partsKnown _ isPart isPattern isPlace =>
      rcases forall₂_getElem? partsKnown isPart with ⟨_, isOther, isKnown⟩
      cases Option.some.inj (isPattern.symm.trans isOther)
      rw [wellFormed.exists_reads_concat partsKnown isPart ⟨_, _, isPattern, isPlace, rfl⟩]
      exact wellFormed.placeReaches_iff ⟨_, isKnown, isPlace⟩
  | transpose => exact exists_reads_transpose.symm
  | nonzero isKnown isPlace => exact (exists_reads_nonzero isKnown isPlace).symm

/-- The marked elements are those that reach the target. -/
theorem WellFormed.elements_reaches (wellFormed : graph.WellFormed) {symbol : Entry}
    (isTarget : graph.entry target.1 = .ok symbol) (isSymbol : symbol.node.isSymbol) :
    graph.Elements influence (graph.PlaceReaches target) where
  commutes _ _ _ _ := propext or_comm
  stored := by
    intro handle entry position marked isEntry member isElement
    have different : handle ≠ target.1 := by
      rintro rfl
      rw [Except.ok.inj (isEntry.symm.trans isTarget)] at isElement
      generalize symbol.node = node at isElement isSymbol
      cases isElement <;> cases isSymbol
    rcases List.mem_iff_getElem?.mp member with ⟨index, isPosition⟩
    have isKnown := pattern_eq_ok.mpr ⟨entry, entry_eq_ok.mp isEntry, rfl⟩
    apply propext
    rw [wellFormed.placeReaches_iff ⟨_, isKnown, isPosition⟩, entryReaches_iff isEntry isPosition different]
    exact (isElement.marked_iff wellFormed).symm
  absent := by
    intro handle known position isKnown notStored
    refine propext ⟨?_, False.elim⟩
    rintro ⟨index, ⟨other, isOther, found⟩, _⟩
    cases Except.ok.inj (isOther.symm.trans isKnown)
    exact notStored (List.mem_of_getElem? found)

end Graph

theorem eq_of_slot_eq (distinct : (blocks.flatMap Block.slots).Nodup) {first second index number slot : Nat}
    {firstBlock secondBlock : Block} (isFirst : blocks[first]? = some firstBlock)
    (isSecond : blocks[second]? = some secondBlock) (firstSlot : firstBlock.slots[index]? = some slot)
    (secondSlot : secondBlock.slots[number]? = some slot) : first = second ∧ index = number := by
  rw [List.nodup_flatMap, List.pairwise_iff_getElem] at distinct
  rcases distinct with ⟨within, between⟩
  rcases List.getElem?_eq_some_iff.mp isFirst with ⟨firstInside, rfl⟩
  rcases List.getElem?_eq_some_iff.mp isSecond with ⟨secondInside, rfl⟩
  have firstMem := List.mem_of_getElem? firstSlot
  have secondMem := List.mem_of_getElem? secondSlot
  rcases Nat.lt_trichotomy first second with before | rfl | after
  · exact (between first second firstInside secondInside before firstMem secondMem).elim
  · refine ⟨rfl, ?_⟩
    rcases List.getElem?_eq_some_iff.mp firstSlot with ⟨indexInside, rfl⟩
    rcases List.getElem?_eq_some_iff.mp secondSlot with ⟨numberInside, same⟩
    exact (List.Nodup.getElem_inj_iff (within _ (List.getElem_mem firstInside))).mp same.symm
  · exact (between second first secondInside firstInside after secondMem firstMem).elim

namespace Graph

variable {graph : Graph} {inputs outputs : List Handle} {emission : Emission}

/-- Marking the slot of an input entry marks the values of all stored entries that reach it. -/
theorem Emitted.marks {values : List (List Nat)} (emitted : Emitted graph inputs outputs blocks values emission)
    (wellFormed : graph.WellFormed) {iind column source : Nat} {block : Block} (isInput : inputs[iind]? = some input)
    (isBlock : blocks[iind]? = some block) (isSource : block.slots[column]? = some source) (handle : Handle) :
    Emission.HoldsElements graph emission (executeAll influence emission.instructions.toList (· = source))
      (graph.PlaceReaches (input, column)) handle := by
  have inBlocks : ∀ {other : Handle} {otherBlock : Block} {index : Nat},
      inputs[index]? = some other → blocks[index]? = some otherBlock →
        (other, otherBlock) ∈ inputs.zip blocks := fun isOther isOtherBlock =>
    List.mem_of_getElem? (List.getElem?_zip_eq_some.mpr ⟨isOther, isOtherBlock⟩)
  have distinct : (blocks.flatMap Block.slots).Nodup := emitted.inputSlots ▸ List.nodup_range
  rcases emitted.declared.entry_of_mem (inBlocks isInput isBlock) with ⟨symbol, isEntry, isSymbol, _⟩
  refine emitted.accounts.holdsElements (wellFormed.elements_reaches isEntry isSymbol)
    (emitted.accounts.consistent.satisfies influence _) wellFormed ?_ handle
  rintro other known _ ⟨otherBlock, otherMem, rfl⟩ isKnown
  rcases List.mem_iff_getElem?.mp otherMem with ⟨place, atPlace⟩
  rcases List.getElem?_zip_eq_some.mp atPlace with ⟨isOther, isOtherBlock⟩
  rcases emitted.declared.entry_of_mem otherMem with ⟨otherEntry, isOtherEntry, otherSymbol, _, length⟩
  rcases pattern_eq_ok.mp isKnown with ⟨_, found, rfl⟩
  cases Option.some.inj ((entry_eq_ok.mp isOtherEntry).symm.trans found)
  refine List.forall₂_iff_get.mpr ⟨by simp [length, Pattern.length_positions], ?_⟩
  intro index inside slotInside
  apply propext
  have isPosition := List.getElem?_eq_getElem inside
  have isSlot : otherBlock.slots[index]? = some _ := List.getElem?_eq_getElem slotInside
  have below : otherBlock.slots[index] < emission.numInputs := by
    rw [← List.mem_range, ← emitted.inputSlots]
    exact List.mem_flatMap.mpr
      ⟨otherBlock, List.mem_of_getElem? isOtherBlock, List.mem_of_getElem? isSlot⟩
  simp only [List.get_eq_getElem]
  rw [wellFormed.placeReaches_iff ⟨_, isKnown, isPosition⟩, entryReaches_symbol isOtherEntry otherSymbol,
    emitted.accounts.consistent.numbered.executeAll_of_lt influence _ below]
  constructor
  · rintro ⟨⟩
    have inside := (List.getElem?_eq_some_iff.mp isOther).1
    cases (List.getElem?_inj inside emitted.nodup).mp (isOther.trans isInput.symm)
    cases Option.some.inj (isOtherBlock.symm.trans isBlock)
    exact Option.some.inj (isSlot.symm.trans isSource)
  · intro same
    rcases eq_of_slot_eq distinct isOtherBlock isBlock (isSlot.trans (congrArg some same)) isSource with ⟨rfl, rfl⟩
    cases Option.some.inj (isOther.symm.trans isInput)
    rfl

theorem storedEntry_iff (isKnown : graph.pattern handle = .ok known) {index : Nat} :
    (∃ position, graph.StoredEntry handle index position) ↔ index < known.nnz := by
  constructor
  · rintro ⟨position, other, isOther, found⟩
    cases Except.ok.inj (isKnown.symm.trans isOther)
    exact Pattern.lt_nnz_of_getElem? found
  · intro inside
    rw [← Pattern.length_positions] at inside
    exact ⟨_, known, isKnown, List.getElem?_eq_getElem inside⟩

variable {tape : Tape}

/-- The data flow between the blocks of a tape is the dependency between the entries of the expressions. -/
theorem Compiles.entryFlows_iff (compiles : Compiles graph inputs outputs emission tape)
    (wellFormed : graph.WellFormed) {iind oind : Nat} {inputBlock outputBlock : Block}
    (isInput : inputs[iind]? = some input) (isInputBlock : tape.inputs[iind]? = some inputBlock)
    (isOutput : outputs[oind]? = some output) (isOutputBlock : tape.outputs[oind]? = some outputBlock)
    (length : outputBlock.slots.length = outputBlock.pattern.nnz) {row column : Nat} :
    tape.EntryFlows inputBlock outputBlock row column ↔
      graph.EntryDepends output input row column := by
  rcases compiles.emitted with ⟨values, emitted⟩
  rcases forall₂_getElem? compiles.outputs isOutput with
    ⟨block, isBlock, isKnown, entries, isLowered, sameValues⟩
  cases Option.some.inj (isBlock.symm.trans isOutputBlock)
  rcases forall₂_getElem? emitted.declared.forall₂ isInput with
    ⟨block', isBlock', isInputKnown, inputLength⟩
  cases Option.some.inj (isBlock'.symm.trans isInputBlock)
  -- The slot of an output entry is marked like the value that the entry has in the whole program.
  have marked : ∀ {source target : Nat}, inputBlock.slots[column]? = some source →
      outputBlock.slots[row]? = some target →
        (Passes tape.instructions source target ↔ graph.EntryReaches (output, row) (input, column)) := by
    intro source target isSource isTarget
    have inside : row < outputBlock.pattern.positions.length := by
      rw [Pattern.length_positions, ← length]
      exact (List.getElem?_eq_some_iff.mp isTarget).1
    have isPosition := List.getElem?_eq_getElem inside
    rcases forall₂_getElem? (emitted.marks wellFormed isInput isInputBlock isSource output isKnown isLowered)
      isPosition with ⟨number, isNumber, same⟩
    have atRow := congrArg (·[row]?) (sameValues influence (· = source))
    simp only [List.getElem?_map, isTarget, isNumber, Option.map_some, Option.some.injEq] at atRow
    rw [← executeAll_influence, atRow, ← same, wellFormed.placeReaches_iff ⟨_, isKnown, isPosition⟩]
  constructor
  · rintro ⟨source, target, isSource, isTarget, flows⟩
    refine ⟨(storedEntry_iff isKnown).mpr (length ▸ (List.getElem?_eq_some_iff.mp isTarget).1), ?_⟩
    exact (marked isSource isTarget).mp (flowsTo_iff_passes.mp flows)
  · intro depends
    have columnInside : column < inputBlock.slots.length :=
      inputLength ▸ (storedEntry_iff isInputKnown).mp depends.stored
    have inside := (storedEntry_iff isKnown).mp depends.1
    have isSource := List.getElem?_eq_getElem columnInside
    have isTarget := List.getElem?_eq_getElem (length.symm ▸ inside)
    exact ⟨_, _, isSource, isTarget, flowsTo_iff_passes.mpr ((marked isSource isTarget).mpr depends.2)⟩

def DependencyPattern (graph : Graph) (output input : Handle) (pattern : Pattern) : Prop :=
  ∃ outputPattern inputPattern, graph.pattern output = .ok outputPattern ∧
    graph.pattern input = .ok inputPattern ∧
    pattern.Represents (outputPattern.nnz, inputPattern.nnz) (graph.EntryDepends output input)

theorem DependencyPattern.eq {first second : Pattern} (isFirst : graph.DependencyPattern output input first)
    (isSecond : graph.DependencyPattern output input second) : first = second := by
  rcases isFirst with ⟨outputPattern, inputPattern, outputKnown, inputKnown, represents⟩
  rcases isSecond with ⟨_, _, outputKnown', inputKnown', represents'⟩
  cases Except.ok.inj (outputKnown.symm.trans outputKnown')
  cases Except.ok.inj (inputKnown.symm.trans inputKnown')
  exact represents.eq represents'

theorem Compiles.exists_dependencyPattern (compiles : Compiles graph inputs outputs emission tape)
    (wellFormed : graph.WellFormed) (carried : List.Forall₂ graph.Carries outputs tape.outputs) {iind oind : Nat}
    (isInput : inputs[iind]? = some input) (isOutput : outputs[oind]? = some output) :
    ∃ pattern, tape.jacobianPattern iind oind = .ok pattern ∧
      graph.DependencyPattern output input pattern := by
  rcases compiles.emitted with ⟨values, emitted⟩
  rcases forall₂_getElem? emitted.declared.forall₂ isInput with
    ⟨inputBlock, isInputBlock, inputKnown, inputLength⟩
  rcases forall₂_getElem? carried isOutput with ⟨outputBlock, isOutputBlock, outputKnown, outputLength⟩
  rcases List.getElem?_eq_some_iff.mp isInputBlock with ⟨inputInside, rfl⟩
  rcases List.getElem?_eq_some_iff.mp isOutputBlock with ⟨outputInside, rfl⟩
  rcases compiles.bounded.exists_jacobianPattern ⟨iind, inputInside⟩ ⟨oind, outputInside⟩ with
    ⟨pattern, found, represents⟩
  refine ⟨pattern, found, _, _, outputKnown, inputKnown, ?_⟩
  rw [Block.Counted] at outputLength
  rw [← outputLength, ← inputLength]
  exact represents.congr fun row column =>
    compiles.entryFlows_iff wellFormed isInput isInputBlock isOutput isOutputBlock outputLength

/-- The Jacobian patterns of a built tape store the dependencies between the expressions. -/
theorem WellFormed.exists_dependencyPattern (wellFormed : graph.WellFormed) {options : BuildOptions}
    (built : graph.build options inputs outputs = .ok tape) {iind oind : Nat} (isInput : inputs[iind]? = some input)
    (isOutput : outputs[oind]? = some output) :
    ∃ pattern, tape.jacobianPattern iind oind = .ok pattern ∧
      graph.DependencyPattern output input pattern := by
  rcases options with ⟨_ | _, share⟩
  · rcases exists_compiles built with ⟨emission, compiles⟩
    exact compiles.exists_dependencyPattern wellFormed (wellFormed.build_carries built).2 isInput isOutput
  · rcases graph.build_linked share inputs outputs with ⟨cause, _, failed⟩ | ⟨plain, reusing,
      before, after, plainBuilt, reusingBuilt, linked⟩
    · rw [failed] at built
      cases built
    · cases Except.ok.inj (reusingBuilt.symm.trans built)
      rcases exists_compiles plainBuilt with ⟨emission, compiles⟩
      rw [← linked.jacobianPattern_eq]
      exact compiles.exists_dependencyPattern wellFormed (wellFormed.build_carries plainBuilt).2 isInput isOutput

/-- Dependency patterns survive lowering. If a graph can be lowered with some options, it can be lowered with
all of them, and the Jacobian pattern of an output and an input is the same in all tapes: it stores the pairs
of stored entries of which the first reaches the second in the graph. -/
theorem Reachable.build_jacobianPattern (reachable : graph.Reachable) {options : BuildOptions}
    (built : graph.build options inputs outputs = .ok tape) (iind : Fin inputs.length)
    (oind : Fin outputs.length) :
    ∃ pattern, graph.DependencyPattern (outputs.get oind) (inputs.get iind) pattern ∧
      ∀ others : BuildOptions, ∃ other, graph.build others inputs outputs = .ok other ∧
        other.jacobianPattern iind oind = .ok pattern := by
  have isInput : inputs[iind.val]? = some (inputs.get iind) := by simp
  have isOutput : outputs[oind.val]? = some (outputs.get oind) := by simp
  rcases reachable.wellFormed.exists_dependencyPattern built isInput isOutput with
    ⟨pattern, _, depends⟩
  refine ⟨pattern, depends, fun others => ?_⟩
  have wellPosed := reachable.wellFormed.wellPosed_of_build built
  rcases wellPosed.exists_build reachable.wellFormed others with ⟨other, otherBuilt⟩
  rcases reachable.wellFormed.exists_dependencyPattern otherBuilt isInput isOutput with
    ⟨otherPattern, found, otherDepends⟩
  exact ⟨other, otherBuilt, by rw [found, otherDepends.eq depends]⟩

def scaling : Graph :=
  (GraphM.binary (.binary .mul) ⟨3⟩ ⟨4⟩).graphAfter
    ((GraphM.nonzero ⟨3⟩ 1).graphAfter ((GraphM.vectorSymbol "x" 2).graphAfter .initial))

theorem scaling_eq : ∃ (zero one two : Float) (interned : Std.HashMap Node Handle),
    scaling = ⟨#[⟨.constant zero, .scalar, 0⟩, ⟨.constant one, .scalar, 0⟩,
      ⟨.constant two, .scalar, 0⟩, ⟨.symbol 0, ⟨2, [[0, 1]]⟩, 2⟩, ⟨.nonzero ⟨3⟩ 1, .scalar, 1⟩,
      ⟨.binary .mul ⟨3⟩ ⟨4⟩, ⟨2, [[0, 1]]⟩, 0⟩], interned, #["x"]⟩ := by
  rcases initial_eq with ⟨zero, one, two, interned, same, absent⟩
  have selected : (GraphM.nonzero ⟨3⟩ 1).graphAfter
      ((GraphM.vectorSymbol "x" 2).graphAfter initial) =
      ⟨#[⟨.constant zero, .scalar, 0⟩, ⟨.constant one, .scalar, 0⟩, ⟨.constant two, .scalar, 0⟩,
        ⟨.symbol 0, ⟨2, [[0, 1]]⟩, 1⟩, ⟨.nonzero ⟨3⟩ 1, .scalar, 0⟩],
        interned.insert (.nonzero ⟨3⟩ 1) ⟨4⟩, #["x"]⟩ := by
    rw [same]
    refine (insert_of_absent _ ?_).trans rfl
    exact absent (.nonzero ⟨3⟩ 1) (by simp [Node.operands])
  have stillAbsent : (interned.insert (.nonzero ⟨3⟩ 1) ⟨4⟩)[Node.binary .mul ⟨3⟩ ⟨4⟩]? = none := by
    simp [Std.HashMap.getElem?_insert, absent (.binary .mul ⟨3⟩ ⟨4⟩) (by simp [Node.operands])]
  refine ⟨zero, one, two,
    (interned.insert (.nonzero ⟨3⟩ 1) ⟨4⟩).insert (.binary .mul ⟨3⟩ ⟨4⟩) ⟨5⟩, ?_⟩
  rw [scaling, selected]
  exact (insert_of_absent _ stillAbsent).trans rfl

/-- Both entries of the product depend on the last entry of the vector, also when the product is written
over the vector. -/
theorem scaling_jacobianPattern : ∃ tape, scaling.Reachable ∧
    scaling.build ⟨true, true⟩ [⟨3⟩] [⟨5⟩] = .ok tape ∧
    tape.jacobianPattern 0 0 = .ok ⟨2, [[0], [0, 1]]⟩ ∧
    ∃ pattern, scaling.DependencyPattern ⟨5⟩ ⟨3⟩ pattern ∧
      ∀ others : BuildOptions, ∃ other, scaling.build others [⟨3⟩] [⟨5⟩] = .ok other ∧
        other.jacobianPattern 0 0 = .ok pattern := by
  have reachable : scaling.Reachable :=
    .after (.after (.after .initial (.vectorSymbol ..)) (.nonzero ..)) (.binary ..)
  rcases scaling_eq with ⟨zero, one, two, interned, same⟩
  have order : scaling.postOrder [⟨5⟩] = .ok [⟨3⟩, ⟨4⟩, ⟨5⟩] := by
    rw [same]
    cbv
  have built : scaling.build ⟨true, true⟩ [⟨3⟩] [⟨5⟩] = .ok ⟨[⟨.binary .mul, 0, 0, 1, 0⟩,
      ⟨.binary .mul, 1, 1, 1, 0⟩], 2, [⟨"x", ⟨2, [[0, 1]]⟩, [0, 1]⟩],
      [⟨"o0", ⟨2, [[0, 1]]⟩, [0, 1]⟩]⟩ := by
    rw [build, emitAll, order, same]
    cbv
  exact ⟨_, reachable, built, by cbv,
    Reachable.build_jacobianPattern reachable built ⟨0, by decide⟩ ⟨0, by decide⟩⟩

end Graph

end Autodiff
