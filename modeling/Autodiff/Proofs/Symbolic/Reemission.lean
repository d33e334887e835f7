import Autodiff.Proofs.Lowering.WellPosed
import Autodiff.Proofs.Symbolic.Evaluation
import Autodiff.Proofs.Symbolic.NormalForm

/-!
# Re-emission undoes compilation

A value of a built tape stands for the expressions that it was emitted for. If these are in normal form, then each
instruction, run over expressions, finds the node that it was emitted for again, because its operands are found
already. So symbolic evaluation of the tape on its own inputs returns the outputs and adds nothing to the graph.
-/

namespace Autodiff

namespace Graph

/-! ## Expressions in normal form -/

/-- A 1x1 node with a stored entry: a declared symbol, a literal, or an operation that no rule applies to. -/
inductive Normal (graph : Graph) (inputs : List Handle) (handle : Handle) : Prop where
  | symbol {index : Nat} (hasNode : graph.HasNode handle (.symbol index) .scalar) (declared : handle ∈ inputs)
  | constant {literal : Float} (hasNode : graph.HasNode handle (.constant literal) .scalar)
  | unary {op : UnaryOp} {operand : Handle} (hasNode : graph.HasNode handle (.unary op operand) .scalar)
      (irreducible : ¬graph.Reducible (.unary op operand))
  | binary {op : BinaryOp} {lhs rhs : Handle} (hasNode : graph.HasNode handle (.binary op lhs rhs) .scalar)
      (irreducible : ¬graph.Reducible (.binary op lhs rhs))

theorem Normal.pattern_eq {graph : Graph} {inputs : List Handle} {handle : Handle}
    (normal : graph.Normal inputs handle) : graph.pattern handle = .ok .scalar := by
  cases normal with
  | symbol hasNode | constant hasNode | unary hasNode | binary hasNode => exact hasNode.pattern_eq

/-- An instruction computes an expression from expressions that its operands stand for. -/
inductive Computes (graph : Graph) (names : Nat → Handle → Prop) (instruction : Instruction) (handle : Handle) :
    Prop where
  | constant (hasNode : graph.HasNode handle (.constant instruction.literal) .scalar)
      (isConst : instruction.op = .const)
  | unary {op : UnaryOp} {operand : Handle} (hasNode : graph.HasNode handle (.unary op operand) .scalar)
      (isUnary : instruction.op = .unary op) (named : names instruction.fst operand)
  | binary {op : BinaryOp} {lhs rhs first second : Handle}
      (hasNode : graph.HasNode handle (.binary op lhs rhs) .scalar) (isBinary : instruction.op = .binary op)
      (firstNamed : names instruction.fst first) (secondNamed : names instruction.snd second)
      (sameOperands : SameOperands op lhs rhs first second)

theorem Computes.exists_name {graph : Graph} {names : Nat → Handle → Prop} {instruction : Instruction}
    {handle : Handle} (computes : graph.Computes names instruction handle) {operand : Nat}
    (isOperand : operand ∈ instruction.operands) : ∃ handle, names operand handle := by
  cases computes with
  | constant _ isConst => simp [Instruction.operands, isConst] at isOperand
  | unary _ isUnary named =>
      simp only [Instruction.operands, isUnary, List.mem_singleton] at isOperand
      exact ⟨_, isOperand ▸ named⟩
  | binary _ isBinary firstNamed secondNamed =>
      simp only [Instruction.operands, isBinary, List.mem_cons, List.not_mem_nil, or_false] at isOperand
      rcases isOperand with rfl | rfl
      · exact ⟨_, firstNamed⟩
      · exact ⟨_, secondNamed⟩

theorem Computes.rename {graph : Graph} {names names' : Nat → Handle → Prop} {instruction : Instruction}
    {handle : Handle} (computes : graph.Computes names instruction handle) {number : Nat → Nat}
    (renamed : ∀ operand ∈ instruction.operands, ∀ ⦃handle⦄, names operand handle → names' (number operand) handle)
    (out : Nat) : graph.Computes names' (instruction.rename number out) handle := by
  cases computes with
  | constant hasNode isConst => exact .constant (by simpa using hasNode) (by simpa using isConst)
  | unary hasNode isUnary named =>
      simp only [Instruction.operands, isUnary, List.forall_mem_singleton] at renamed
      exact .unary hasNode (by simpa using isUnary) (by simpa [Instruction.rename, isUnary] using renamed named)
  | binary hasNode isBinary firstNamed secondNamed sameOperands =>
      simp only [Instruction.operands, isBinary, List.forall_mem_cons] at renamed
      exact .binary hasNode (by simpa using isBinary)
        (by simpa [Instruction.rename, isBinary] using renamed.1 firstNamed)
        (by simpa [Instruction.rename, isBinary] using renamed.2.1 secondNamed) sameOperands

/-- The results of a program stand for expressions in normal form, which its instructions compute. -/
structure Spells (graph : Graph) (inputs : List Handle) (names : Nat → Handle → Prop) (program : List Instruction) :
    Prop where
  normal : ∀ ⦃value handle⦄, names value handle → graph.Normal inputs handle
  computes : ∀ instruction ∈ program, ∀ ⦃handle⦄, names instruction.out handle →
    graph.Computes names instruction handle
  named : ∀ instruction ∈ program, ∃ handle, names instruction.out handle

section Run

variable {graph : Graph} {inputs : List Handle} {names : Nat → Handle → Prop} {instruction : Instruction}
  {handle : Handle} {size next : Nat} {work : Nat → Handle}

theorem Computes.run_step (computes : graph.Computes names instruction handle) (tidy : graph.Tidy)
    (normal : ∀ ⦃value handle⦄, names value handle → graph.Normal inputs handle)
    (isNormal : graph.Normal inputs handle) (below : instruction.Below size) (index : Nat)
    (found : ∀ operand ∈ instruction.operands, ∀ ⦃handle⦄, names operand handle → work operand = handle) :
    (primalStep expressions (slotArray size work) (instruction, index) : GraphM _).run.run graph =
      (.ok (slotArray size (Function.update work instruction.out handle)), graph) := by
  have stepped : ∃ fst snd, (instruction.step expressions index (slotArray size work) : GraphM _).run.run graph =
      (.ok ⟨fst, snd, handle⟩, graph) := by
    cases computes with
    | constant hasNode isConst =>
        refine ⟨.zero, .zero, ?_⟩
        simp only [Instruction.step, Instruction.load, isConst, pure_bind]
        exact GraphM.run_bind_of_ok (tidy.run_constant hasNode) _
    | @unary op operand hasNode isUnary named =>
        refine ⟨operand, .zero, ?_⟩
        have isOperand : instruction.fst ∈ instruction.operands := by simp [Instruction.operands, isUnary]
        have irreducible : ¬graph.Reducible (.unary op operand) := by
          cases isNormal with
          | unary other irreducible => cases (hasNode.unique other).1; exact irreducible
          | symbol other | constant other | binary other => cases (hasNode.unique other).1
        simp only [Instruction.step, Instruction.load, isUnary, readSlot_slotArray (below.operands _ isOperand),
          found _ isOperand named, pure_bind]
        exact GraphM.run_bind_of_ok (tidy.run_unary hasNode irreducible) _
    | @binary op lhs rhs first second hasNode isBinary firstNamed secondNamed sameOperands =>
        refine ⟨first, second, ?_⟩
        have isFirst : instruction.fst ∈ instruction.operands := by simp [Instruction.operands, isBinary]
        have isSecond : instruction.snd ∈ instruction.operands := by simp [Instruction.operands, isBinary]
        have irreducible : ¬graph.Reducible (.binary op lhs rhs) := by
          cases isNormal with
          | binary other irreducible => cases (hasNode.unique other).1; exact irreducible
          | symbol other | constant other | unary other => cases (hasNode.unique other).1
        have scalars : graph.pattern lhs = .ok .scalar ∧ graph.pattern rhs = .ok .scalar := by
          rcases sameOperands with ⟨rfl, rfl⟩ | ⟨_, rfl, rfl⟩
          · exact ⟨(normal firstNamed).pattern_eq, (normal secondNamed).pattern_eq⟩
          · exact ⟨(normal secondNamed).pattern_eq, (normal firstNamed).pattern_eq⟩
        simp only [Instruction.step, Instruction.load, isBinary, readSlot_slotArray (below.operands _ isFirst),
          readSlot_slotArray (below.operands _ isSecond), found _ isFirst firstNamed, found _ isSecond secondNamed,
          pure_bind]
        exact GraphM.run_bind_of_ok (tidy.run_binary hasNode irreducible scalars.1 scalars.2 sameOperands) _
  rcases stepped with ⟨fst, snd, ran⟩
  refine (GraphM.run_bind_of_ok ran _).trans ?_
  rw [writeSlot_slotArray below.out]
  rfl

/-- The rest of a program finds all expressions again that its results stand for. -/
theorem Spells.run_primal {program : List Instruction} (spells : graph.Spells inputs names program)
    (tidy : graph.Tidy) (numbered : Numbered next program) (fits : next + program.length ≤ size) (index : Nat)
    (found : ∀ value < next, ∀ ⦃handle⦄, names value handle → work value = handle) :
    ∃ final : Nat → Handle,
      ((program.zipIdx index).foldlM (primalStep expressions) (slotArray size work) : GraphM _).run.run graph =
        (.ok (slotArray size final), graph) ∧
      ∀ value < next + program.length, ∀ ⦃handle⦄, names value handle → final value = handle := by
  induction program generalizing next index work with
  | nil => exact ⟨work, rfl, found⟩
  | cons instruction program ih =>
      rcases numbered with ⟨isNext, operandsBelow, restNumbered⟩
      rw [List.length_cons] at fits
      have below : instruction.Below size := by
        refine ⟨by omega, fun operand isOperand => ?_⟩
        have := operandsBelow operand isOperand
        omega
      have step : ∀ {handle}, names instruction.out handle →
          (primalStep expressions (slotArray size work) (instruction, index) : GraphM _).run.run graph =
            (.ok (slotArray size (Function.update work instruction.out handle)), graph) := by
        intro handle named
        exact (spells.computes instruction (List.mem_cons_self ..) named).run_step tidy spells.normal
          (spells.normal named) below index fun operand isOperand => found operand (operandsBelow operand isOperand)
      rcases spells.named instruction (List.mem_cons_self ..) with ⟨handle, named⟩
      have rest : graph.Spells inputs names program :=
        ⟨spells.normal, fun other member => spells.computes other (List.mem_cons_of_mem _ member),
          fun other member => spells.named other (List.mem_cons_of_mem _ member)⟩
      have foundNext : ∀ value < next + 1, ∀ ⦃other⦄, names value other →
          Function.update work instruction.out handle value = other := by
        intro value valueBelow other otherNamed
        by_cases isOut : value = instruction.out
        · -- The instruction has one result, so that it stands for one expression.
          subst isOut
          have same := (step named).symm.trans (step otherNamed)
          have atOut := congrArg (·[instruction.out]?) (Except.ok.inj (Prod.mk.inj same).1)
          simpa [getElem?_slotArray below.out] using atOut
        · rw [Function.update_of_ne isOut]
          exact found value (by omega) otherNamed
      rcases ih rest restNumbered (by omega) (index + 1) foundNext with ⟨final, ran, finalFound⟩
      refine ⟨final, ?_, ?_⟩
      · rw [List.zipIdx_cons, List.foldlM_cons]
        exact (GraphM.run_bind_of_ok (step named) _).trans ran
      · rw [List.length_cons, show next + (program.length + 1) = next + 1 + program.length by omega]
        exact finalFound

end Run

/-! ## What values stand for -/

/-- The value that was emitted for an expression of an output. -/
def Names (graph : Graph) (outputs : List Handle) (emission : Emission) (value : Nat) (handle : Handle) : Prop :=
  (∃ output ∈ outputs, graph.Reaches output handle) ∧ emission.StoredAt handle 0 value

/-- A value is the entry of an input, or it is computed for an expression. -/
def Originates (graph : Graph) (inputs outputs : List Handle) (blocks : List Block) (emission : Emission)
    (value : Nat) (handle : Handle) : Prop :=
  (∃ block, (handle, block) ∈ inputs.zip blocks ∧ value ∈ block.slots) ∨
    ∃ instruction ∈ emission.instructions, instruction.out = value ∧
      graph.Computes (graph.Names outputs emission) instruction handle

/-- What the values stand for that pruning keeps. -/
def NamesKept (graph : Graph) (outputs : List Handle) (emission : Emission) (live : Nat → Bool)
    (number : Nat → Nat) (value : Nat) (handle : Handle) : Prop :=
  ∃ old < emission.numInputs + emission.instructions.toList.length, live old ∧ number old = value ∧
    graph.Names outputs emission old handle

/-- An input in place of each of its stored entries. A stored 1x1 symbol is its own entry. -/
def ownEntries (graph : Graph) (input : Handle) : List Handle :=
  match graph.pattern input with
  | .ok pattern => List.replicate pattern.nnz input
  | .error _ => []

theorem ownEntries_eq {graph : Graph} {input : Handle} {pattern : Pattern}
    (known : graph.pattern input = .ok pattern) : graph.ownEntries input = List.replicate pattern.nnz input := by
  rw [ownEntries, known]

section Emitted

variable {graph : Graph} {inputs outputs : List Handle} {blocks : List Block} {values : List (List Nat)}
  {emission : Emission} {handle : Handle} {value : Nat}

/-- The element of a stored 1x1 operand is its only entry. -/
theorem storedAt_of_elementAt (isScalar : graph.pattern handle = .ok .scalar)
    (element : Emission.ElementAt graph emission handle (0, 0) value) : emission.StoredAt handle 0 value := by
  rcases element with ⟨entry, found, isElement⟩
  rcases pattern_eq_ok.mp isScalar with ⟨other, isOther, samePattern⟩
  cases (entry_eq_ok.mp found).symm.trans isOther
  rw [samePattern] at isElement
  exact isElement

/-- The instruction that was emitted for an operation in normal form. -/
theorem Normal.exists_instruction (normal : graph.Normal inputs handle) {entry : Entry}
    (found : graph.entry handle = .ok entry) {entries : List Nat}
    (explained : Emission.Explains graph emission entry.pattern entry.node entries) {names : Nat → Handle → Prop}
    (named : ∀ {operand element}, graph.HasOperand handle operand →
      Emission.ElementAt graph emission operand (0, 0) element → names element operand) :
    ∃ value, entries = [value] ∧ ∃ instruction ∈ emission.instructions, instruction.out = value ∧
      graph.Computes names instruction handle := by
  have isEntry : graph.HasNode handle entry.node entry.pattern := ⟨entry, entry_eq_ok.mp found, rfl, rfl⟩
  have reads : ∀ operand ∈ entry.node.operands, graph.HasOperand handle operand :=
    fun operand member => ⟨entry, entry_eq_ok.mp found, member⟩
  cases normal with
  | symbol hasNode =>
      have isSymbol := explained.isSymbol_eq
      rw [(isEntry.unique hasNode).1] at isSymbol
      cases isSymbol
  | constant hasNode =>
      rw [(isEntry.unique hasNode).1] at explained
      cases explained with
      | @constant _ value isConstant => exact ⟨value, rfl, _, isConstant, rfl, .constant hasNode rfl⟩
  | @unary op operand hasNode =>
      rw [(isEntry.unique hasNode).1, (isEntry.unique hasNode).2] at explained
      rw [(isEntry.unique hasNode).1] at reads
      cases explained with
      | unary results =>
          rcases results with _ | ⟨⟨element, isElement, isResult⟩, _ | _⟩
          rcases isResult with plain | ⟨commutative, _⟩
          · exact ⟨_, rfl, _, plain, rfl,
              .unary hasNode rfl (named (reads operand (List.mem_singleton_self _)) isElement)⟩
          · cases commutative
  | @binary op lhs rhs hasNode =>
      rw [(isEntry.unique hasNode).1, (isEntry.unique hasNode).2] at explained
      rw [(isEntry.unique hasNode).1] at reads
      cases explained with
      | binary results =>
          rcases results with _ | ⟨⟨first, second, isFirst, isSecond, isResult⟩, _ | _⟩
          have firstNamed := named (reads lhs (by simp [Node.operands])) isFirst
          have secondNamed := named (reads rhs (by simp [Node.operands])) isSecond
          rcases isResult with plain | ⟨commutative, swapped⟩
          · exact ⟨_, rfl, _, plain, rfl, .binary hasNode rfl firstNamed secondNamed (.inl ⟨rfl, rfl⟩)⟩
          · exact ⟨_, rfl, _, swapped, rfl,
              .binary hasNode rfl secondNamed firstNamed (.inr ⟨commutative, rfl, rfl⟩)⟩

variable (emitted : Emitted graph inputs outputs blocks values emission)
  (normal : ∀ output ∈ outputs, ∀ handle, graph.Reaches output handle → graph.Normal inputs handle)
include emitted normal

theorem Emitted.exists_value (reached : ∃ output ∈ outputs, graph.Reaches output handle) {entries : Array Nat}
    (lowered : emission.Lowered handle entries) :
    ∃ value, entries.toList = [value] ∧ graph.Originates inputs outputs blocks emission value handle := by
  rcases reached with ⟨output, member, reaches⟩
  have isNormal := normal output member handle reaches
  rcases emitted.accounts.accounted lowered with ⟨block, isInput, rfl⟩ | ⟨entry, found, explained⟩
  · rcases emitted.declared.entry_of_mem isInput with ⟨entry, found, _, _, length⟩
    have known : graph.pattern handle = .ok entry.pattern := pattern_eq_ok.mpr ⟨entry, entry_eq_ok.mp found, rfl⟩
    rw [isNormal.pattern_eq, Except.ok.injEq] at known
    rw [← known] at length
    rcases List.length_eq_one_iff.mp length with ⟨value, slots⟩
    exact ⟨value, slots, .inl ⟨block, isInput, by simp [slots]⟩⟩
  · have named : ∀ {operand element}, graph.HasOperand handle operand →
        Emission.ElementAt graph emission operand (0, 0) element → graph.Names outputs emission element operand := by
      intro operand element reads isElement
      have operandReaches : graph.Reaches output operand := reaches.tail reads
      exact ⟨⟨output, member, operandReaches⟩,
        storedAt_of_elementAt (normal output member operand operandReaches).pattern_eq isElement⟩
    rcases isNormal.exists_instruction found explained named with ⟨value, single, computed⟩
    exact ⟨value, single, .inr computed⟩

theorem Emitted.originates (named : graph.Names outputs emission value handle) :
    graph.Originates inputs outputs blocks emission value handle := by
  rcases named with ⟨reached, entries, lowered, first⟩
  rcases emitted.exists_value normal reached lowered with ⟨other, single, origin⟩
  rw [← Array.getElem?_toList, single] at first
  cases first
  exact origin

/-- An emitted instruction computes the expressions that its result stands for. -/
theorem Emitted.computes {instruction : Instruction} (member : instruction ∈ emission.instructions)
    (named : graph.Names outputs emission instruction.out handle) :
    graph.Computes (graph.Names outputs emission) instruction handle := by
  have numbered := emitted.accounts.consistent.numbered
  have isInstruction := Array.mem_toList_iff.mpr member
  rcases emitted.originates normal named with ⟨block, isInput, isSlot⟩ | ⟨other, otherMem, sameOut, computes⟩
  · have below := emitted.slot_lt (List.of_mem_zip isInput).2 isSlot
    have atLeast := (numbered.of_mem isInstruction).1
    omega
  · rwa [← numbered.eq_of_out (Array.mem_toList_iff.mpr otherMem) isInstruction sameOut]

variable {program : List Instruction} {kept : List (List Nat)} {live : Nat → Bool} {number : Nat → Nat}
  (lowered : ∀ output ∈ outputs, ∃ entries, emission.Lowered output entries)
  (pruned : Pruned emission.numInputs emission.instructions.toList values program kept live number)
include lowered pruned

theorem Emitted.exists_output {output : Handle} (member : output ∈ outputs) :
    ∃ value < emission.numInputs + program.length, (emission.lowered output).toList.map number = [value] ∧
      graph.NamesKept outputs emission live number value output := by
  rcases lowered output member with ⟨entries, isLowered⟩
  have reached : ∃ other ∈ outputs, graph.Reaches other output := ⟨output, member, .refl⟩
  rcases emitted.exists_value normal reached isLowered with ⟨value, single, _⟩
  have isBlock : [value] ∈ values := by
    rw [emitted.values_eq, ← single, ← isLowered.lowered_eq]
    exact List.mem_map_of_mem member
  have below := pruned.outputs_below _ isBlock value (List.mem_singleton_self value)
  have isLive := pruned.outputs_live _ isBlock value (List.mem_singleton_self value)
  refine ⟨number value, pruned.number_lt value below isLive, by rw [isLowered.lowered_eq, single]; rfl, value, below,
    isLive, rfl, reached, entries, isLowered, ?_⟩
  rw [← Array.getElem?_toList, single]
  rfl

/-- What is kept of an emitted program computes the expressions that its results stand for. -/
theorem Emitted.spells : graph.Spells inputs (graph.NamesKept outputs emission live number) program := by
  have numbered := emitted.accounts.consistent.numbered
  have computes : ∀ instruction ∈ program, ∀ ⦃handle⦄,
      graph.NamesKept outputs emission live number instruction.out handle →
        graph.Computes (graph.NamesKept outputs emission live number) instruction handle := by
    rintro instruction member handle ⟨old, below, isLive, same, named⟩
    rcases pruned.exists_original member with ⟨original, isInstruction, outLive, rfl⟩
    rcases numbered.of_mem isInstruction with ⟨_, outBelow, operandsBelow⟩
    rw [Instruction.out_rename] at same
    cases pruned.number_injective old below isLive original.out outBelow outLive same
    refine (emitted.computes normal (Array.mem_toList_iff.mp isInstruction) named).rename ?_ _
    intro operand isOperand other operandNamed
    have operandBelow := operandsBelow operand isOperand
    exact ⟨operand, by omega, pruned.closed original isInstruction outLive operand isOperand, rfl, operandNamed⟩
  refine ⟨?_, computes, ?_⟩
  · rintro value handle ⟨_, _, _, _, ⟨output, member, reaches⟩, _⟩
    exact normal output member handle reaches
  · -- From the last instruction on: a result belongs to an output, or a later instruction reads it.
    intro instruction member
    induction remaining : emission.numInputs + program.length - instruction.out using Nat.strong_induction_on
      generalizing instruction with
    | _ remaining ih =>
        rcases pruned.needed instruction member with inOutput | ⟨reader, readerMem, isOperand⟩
        · rw [emitted.kept_eq pruned] at inOutput
          rcases List.mem_flatten.mp inOutput with ⟨_, blockMem, valueMem⟩
          rcases List.mem_map.mp blockMem with ⟨output, outputMem, rfl⟩
          rcases emitted.exists_output normal lowered pruned outputMem with ⟨value, _, single, named⟩
          rw [single, List.mem_singleton] at valueMem
          exact ⟨output, valueMem ▸ named⟩
        · rcases pruned.numbered.of_mem readerMem with ⟨_, readerBelow, operandsBelow⟩
          have after := operandsBelow _ isOperand
          rcases ih _ (by omega) reader readerMem rfl with ⟨handle, named⟩
          exact (computes reader readerMem named).exists_name isOperand

omit lowered in
/-- The input slots hold the expressions that the input values stand for. -/
theorem Emitted.stored_eq (fits : List.Forall₂ graph.Fits inputs (inputs.map graph.ownEntries))
    (below : value < emission.numInputs) (named : graph.NamesKept outputs emission live number value handle) :
    stored .zero blocks (inputs.map graph.ownEntries) value = handle := by
  have numbered := emitted.accounts.consistent.numbered
  rcases named with ⟨old, oldBelow, isLive, isNumber, named⟩
  have isInput : old < emission.numInputs := by
    by_contra notInput
    rcases numbered.exists_out (Nat.not_lt.mp notInput) oldBelow with ⟨instruction, member, rfl⟩
    have atLeast := (pruned.numbered.of_mem (pruned.kept_mem member isLive)).1
    rw [Instruction.out_rename] at atLeast
    omega
  rw [pruned.inputs old isInput] at isNumber
  subst isNumber
  rcases emitted.originates normal named with ⟨block, isDeclared, isSlot⟩ | ⟨instruction, member, rfl, _⟩
  · have pairMem : (block, graph.ownEntries handle) ∈ blocks.zip (inputs.map graph.ownEntries) := by
      rw [List.zip_map_right, ← List.zip_swap inputs blocks, List.map_map]
      exact List.mem_map.mpr ⟨(handle, block), isDeclared, rfl⟩
    have distinct : (blocks.flatMap Block.slots).Nodup := emitted.inputSlots ▸ List.nodup_range
    have loaded := (emitted.declared.shaped fits).map_stored distinct (fun _ => emitted.slot_lt) .zero _ pairMem
    rcases named with ⟨⟨output, member, reaches⟩, _⟩
    rw [ownEntries_eq (normal output member handle reaches).pattern_eq] at loaded
    exact List.eq_of_mem_replicate (loaded ▸ List.mem_map_of_mem isSlot)
  · have atLeast := (numbered.of_mem (Array.mem_toList_iff.mpr member)).1
    omega

end Emitted

/-! ## Symbolic evaluation of built tapes -/

variable {graph : Graph} {inputs outputs : List Handle}

/-- A tape without slot reuse that is loaded with its own inputs finds the outputs again. -/
theorem Tidy.run_plain (tidy : graph.Tidy) {share : Bool} {plain : Tape}
    (built : graph.build ⟨false, share⟩ inputs outputs = .ok plain)
    (normal : ∀ output ∈ outputs, ∀ handle, graph.Reaches output handle → graph.Normal inputs handle)
    (fits : List.Forall₂ graph.Fits inputs (inputs.map graph.ownEntries)) :
    (plain.primal expressions
        (slotArray plain.numSlots (stored .zero plain.inputs (inputs.map graph.ownEntries))) >>=
      readBlocks plain.outputs : GraphM _).run.run graph = (.ok (outputs.map fun output => [output]), graph) := by
  have outputsBelow := (build_valid built).1.outputsBelow
  rcases build_plain built with ⟨blocks, values, emission, program, kept, live, number, outputBlocks, emitted, lowered,
    pruned, blocksFound, rfl⟩
  rcases (emitted.spells normal lowered pruned).run_primal tidy pruned.numbered (Nat.le_refl _) 0
    fun value below handle => emitted.stored_eq normal pruned fits below with ⟨final, ran, found⟩
  refine (GraphM.run_bind_of_ok ran _).trans ?_
  rw [readBlocks_slotArray outputsBelow]
  have read : (outputs.map fun output => [output]) = outputBlocks.map fun block => block.slots.map final := by
    rw [emitted.kept_eq pruned] at blocksFound
    rw [← List.forall₂_eq_eq_eq, List.forall₂_map_left_iff, List.forall₂_map_right_iff]
    refine forall₂_imp_of_mem (outputBlocks_eq_ok blocksFound) fun output block member => ?_
    rintro ⟨_, slots⟩
    rcases emitted.exists_output normal lowered pruned member with ⟨value, below, single, named⟩
    rw [slots, single, List.map_singleton, found value below named]
  rw [read]
  rfl

theorem fits_ownEntries (symbols : ∀ input ∈ inputs, graph.IsSymbol input) :
    List.Forall₂ graph.Fits inputs (inputs.map graph.ownEntries) := by
  rw [List.forall₂_map_right_iff, List.forall₂_same]
  intro input member
  rcases symbols input member with ⟨entry, found, _⟩
  have known := pattern_eq_ok.mpr ⟨entry, found, rfl⟩
  exact ⟨_, known, by rw [ownEntries_eq known, List.length_replicate]⟩

theorem knows_ownEntries (inputs : List Handle) : graph.Knows (inputs.map graph.ownEntries) := by
  intro entries entriesMem handle handleMem
  rcases List.mem_map.mp entriesMem with ⟨input, _, rfl⟩
  rcases known : graph.pattern input with cause | pattern
  · rw [ownEntries, known] at handleMem
    cases handleMem
  · rw [ownEntries_eq known] at handleMem
    exact ⟨pattern, List.eq_of_mem_replicate handleMem ▸ known⟩

/-- Outputs in normal form that reach declared symbols only are a well-posed problem. -/
theorem wellPosed_of_normal (symbols : ∀ input ∈ inputs, graph.IsSymbol input) (distinct : inputs.Nodup)
    (normal : ∀ output ∈ outputs, ∀ handle, graph.Reaches output handle → graph.Normal inputs handle) :
    graph.WellPosed inputs outputs := by
  refine ⟨symbols, distinct, fun output member => ?_, fun output member symbol reaches => ?_⟩
  · rcases pattern_eq_ok.mp (normal output member output .refl).pattern_eq with ⟨entry, found, _⟩
    exact contains_iff.mpr ⟨entry, found⟩
  · rintro ⟨entry, found, isSymbol⟩
    have isEntry : graph.HasNode symbol entry.node entry.pattern := ⟨entry, found, rfl, rfl⟩
    cases normal output member symbol reaches with
    | symbol hasNode declared => exact declared
    | constant hasNode | unary hasNode | binary hasNode =>
        rw [(isEntry.unique hasNode).1] at isSymbol
        cases isSymbol

/-- If the outputs are in normal form, symbolic evaluation of their tape on the inputs themselves returns the outputs
and adds no node. -/
theorem Evolves.evalSymbolic_build (evolves : initial.Evolves graph)
    (symbols : ∀ input ∈ inputs, graph.IsSymbol input) (distinct : inputs.Nodup)
    (normal : ∀ output ∈ outputs, ∀ handle, graph.Reaches output handle → graph.Normal inputs handle)
    (options : BuildOptions) :
    ∃ tape, graph.build options inputs outputs = .ok tape ∧
      (tape.evalSymbolic (inputs.map graph.ownEntries) : GraphM _).run.run graph =
        (.ok (outputs.map fun output => [output]), graph) := by
  have tidy := evolves.of_lasts lasts_tidy (lasts_tidy.initial tidy_empty)
  have fits := fits_ownEntries symbols
  rcases (wellPosed_of_normal symbols distinct normal).exists_build tidy.wellFormed options with ⟨tape, built⟩
  rcases exists_linked_plain built with ⟨plain, before, after, plainBuilt, linked⟩
  rcases exists_compiles plainBuilt with ⟨_, ⟨_, emitted⟩, _, _⟩
  have shaped : Session.Shaped tape.inputs (inputs.map graph.ownEntries) :=
    linked.inputs ▸ emitted.declared.shaped fits
  have work := Tape.run_symbolicWork (build_valid built).1.inputsBelow shaped (knows_ownEntries inputs)
  have same : Tape.LinkedBy.SameInputs plain tape
      (slotArray plain.numSlots (stored .zero plain.inputs (inputs.map graph.ownEntries)))
      (slotArray tape.numSlots (stored .zero tape.inputs (inputs.map graph.ownEntries))) := by
    refine ⟨size_slotArray, size_slotArray, fun block blockMem slot slotMem => ?_⟩
    rcases linked.inputsInside block blockMem slot slotMem with ⟨plainInside, inside⟩
    rw [getElem?_slotArray plainInside, getElem?_slotArray inside, linked.inputs]
  refine ⟨tape, built, (GraphM.run_bind_of_ok work _).trans ?_⟩
  rw [← linked.primal_eq expressions same]
  exact tidy.run_plain plainBuilt normal fits

def symbolProduct : Graph :=
  (GraphM.binary (.binary .mul) ⟨3⟩ ⟨4⟩).graphAfter symbolPair

theorem symbolProduct_eq : ∃ (zero one two : Float) (interned : Std.HashMap Node Handle),
    symbolProduct = ⟨#[⟨.constant zero, .scalar, 0⟩, ⟨.constant one, .scalar, 0⟩, ⟨.constant two, .scalar, 0⟩,
      ⟨.symbol 0, .scalar, 1⟩, ⟨.symbol 1, .scalar, 1⟩, ⟨.binary .mul ⟨3⟩ ⟨4⟩, .scalar, 0⟩], interned,
      #["x", "y"]⟩ := by
  rcases initial_eq with ⟨zero, one, two, interned, same, absent⟩
  refine ⟨zero, one, two, interned.insert (.binary .mul ⟨3⟩ ⟨4⟩) ⟨5⟩, ?_⟩
  rw [symbolProduct, symbolPair, same]
  exact (insert_of_absent _ (absent (.binary .mul ⟨3⟩ ⟨4⟩) (by simp [Node.operands]))).trans rfl

/-- The product is found again, although the symbols are declared in another order than they were made in. -/
theorem symbolProduct_evalSymbolic :
    initial.Evolves symbolProduct ∧ (∀ input ∈ [⟨4⟩, ⟨3⟩], symbolProduct.IsSymbol input) ∧
    (∀ handle, symbolProduct.Reaches ⟨5⟩ handle → symbolProduct.Normal [⟨4⟩, ⟨3⟩] handle) ∧
    ∀ options, ∃ tape, symbolProduct.build options [⟨4⟩, ⟨3⟩] [⟨5⟩] = .ok tape ∧
      (tape.evalSymbolic [[⟨4⟩], [⟨3⟩]] : GraphM _).run.run symbolProduct = (.ok [[⟨5⟩]], symbolProduct) := by
  rcases symbolProduct_eq with ⟨zero, one, two, interned, same⟩
  have evolves : initial.Evolves symbolProduct :=
    .after (.after (.after .refl (.construct (.scalarSymbol ..))) (.construct (.scalarSymbol ..)))
      (.construct (.binary ..))
  have x : symbolProduct.HasNode ⟨3⟩ (.symbol 0) .scalar := same ▸ ⟨_, rfl, rfl, rfl⟩
  have y : symbolProduct.HasNode ⟨4⟩ (.symbol 1) .scalar := same ▸ ⟨_, rfl, rfl, rfl⟩
  have product : symbolProduct.HasNode ⟨5⟩ (.binary .mul ⟨3⟩ ⟨4⟩) .scalar := same ▸ ⟨_, rfl, rfl, rfl⟩
  have irreducible : ¬symbolProduct.Reducible (.binary .mul ⟨3⟩ ⟨4⟩) := by
    intro reducible
    cases reducible with
    | literals isLiteral => cases (isLiteral.unique x).1
    | zeroTerm isSum => simp at isSum
    | specialFactor isFactor _ compares =>
        rcases compares with ⟨_, _, isLiteral, _⟩
        rcases isFactor with rfl | rfl
        · cases (isLiteral.unique x).1
        · cases (isLiteral.unique y).1
  have normal : ∀ handle, symbolProduct.Reaches ⟨5⟩ handle → symbolProduct.Normal [⟨4⟩, ⟨3⟩] handle := by
    intro handle reaches
    have reached : handle = ⟨5⟩ ∨ handle = ⟨4⟩ ∨ handle = ⟨3⟩ := by
      induction reaches with
      | refl => exact .inl rfl
      | tail _ reads ih =>
          rcases reads with ⟨entry, found, isOperand⟩
          rw [same] at found
          rcases ih with rfl | rfl | rfl <;> cases found <;> simp [Node.operands] at isOperand
          exact .inr isOperand.symm
    rcases reached with rfl | rfl | rfl
    · exact .binary product irreducible
    · exact .symbol y (by decide)
    · exact .symbol x (by decide)
  have symbols : ∀ input ∈ [⟨4⟩, ⟨3⟩], symbolProduct.IsSymbol input := by
    rw [List.forall_mem_cons, List.forall_mem_singleton, same]
    exact ⟨⟨_, rfl, rfl⟩, ⟨_, rfl, rfl⟩⟩
  have own : [⟨4⟩, ⟨3⟩].map symbolProduct.ownEntries = [[⟨4⟩], [⟨3⟩]] := by
    rw [same]
    rfl
  refine ⟨evolves, symbols, normal, fun options => ?_⟩
  rw [← own]
  exact evolves.evalSymbolic_build symbols (by decide) (List.forall_mem_singleton.mpr normal) options

end Graph

end Autodiff
