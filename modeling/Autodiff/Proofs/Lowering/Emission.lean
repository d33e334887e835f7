import Autodiff.Lowering.Build
import Autodiff.Proofs.Decimal.Parts
import Autodiff.Proofs.Lowering.Pruning
import Autodiff.Proofs.Outcome

/-!
# What emission leaves behind

Emission only adds: instructions stay, tables stay true and lowered nodes keep their values
(`Grows`). So every fact about emitted values is stated as the presence of instructions, and such facts
survive whatever is emitted later.

`Emission.Explains` says for one node which instructions its values stand for. The result of this
module is that lowering a node explains it (`EmitM.yields_lower`).
-/

namespace Autodiff

variable {handle : Handle} {graph : Graph} {pattern : Pattern}

namespace Emission

def IsConstant (emission : Emission) (literal : Float) (value : Nat) : Prop :=
  ⟨.const, value, unusedOperand, unusedOperand, literal⟩ ∈ emission.instructions

/-- The value is the result of an operation; the operands of a commutative one may be swapped. -/
def IsResult (emission : Emission) (op : Opcode) (first second value : Nat) : Prop :=
  ⟨op, value, first, second, 0⟩ ∈ emission.instructions ∨
    (op.isCommutative ∧ ⟨op, value, second, first, 0⟩ ∈ emission.instructions)

def Lowered (emission : Emission) (handle : Handle) (values : Array Nat) : Prop :=
  emission.values[handle.index]? = some (some values)

theorem Lowered.lowered_eq {emission : Emission} {values : Array Nat} (lowered : emission.Lowered handle values) :
    emission.lowered handle = values := by
  rw [Emission.lowered, lowered]
  rfl

/-- The emitted program is numbered, the tables point to emitted instructions, and lowered nodes
have existing values. -/
structure Consistent (emission : Emission) : Prop where
  numbered : Numbered emission.numInputs emission.instructions.toList
  constants : ∀ ⦃bits value⦄, emission.constants[bits]? = some value →
    ∃ literal : Float, literal.toBits = bits ∧ emission.IsConstant literal value
  operations : ∀ ⦃op first second value⦄, emission.operations[(op, first, second)]? = some value →
    ⟨op, value, first, second, 0⟩ ∈ emission.instructions
  lowered : ∀ ⦃handle values⦄, emission.Lowered handle values →
    ∀ value ∈ values, value < emission.nextValue

/-- The second emission has all that the first has. -/
structure Grows (before after : Emission) : Prop where
  numInputs_eq : after.numInputs = before.numInputs
  instructions : ∀ instruction ∈ before.instructions, instruction ∈ after.instructions
  nextValue_le : before.nextValue ≤ after.nextValue
  lowered : ∀ ⦃handle values⦄, before.Lowered handle values → after.Lowered handle values
  sized : after.values.size = before.values.size

theorem Grows.refl (emission : Emission) : Grows emission emission :=
  ⟨rfl, fun _ member => member, Nat.le_refl _, fun _ _ lowered => lowered, rfl⟩

theorem Grows.trans {first second third : Emission} (before : Grows first second)
    (after : Grows second third) : Grows first third :=
  ⟨after.numInputs_eq.trans before.numInputs_eq,
    fun instruction member => after.instructions instruction (before.instructions _ member),
    Nat.le_trans before.nextValue_le after.nextValue_le,
    fun _ _ lowered => after.lowered (before.lowered lowered), after.sized.trans before.sized⟩

theorem Grows.isConstant {before after : Emission} (grows : Grows before after) {literal : Float}
    {value : Nat} (isConstant : before.IsConstant literal value) :
    after.IsConstant literal value :=
  grows.instructions _ isConstant

theorem Grows.isResult {before after : Emission} (grows : Grows before after) {op : Opcode}
    {first second value : Nat} (isResult : before.IsResult op first second value) :
    after.IsResult op first second value :=
  isResult.imp (grows.instructions _) fun swapped => ⟨swapped.1, grows.instructions _ swapped.2⟩

theorem Consistent.lt_nextValue {emission : Emission} (consistent : emission.Consistent)
    {instruction : Instruction} (member : instruction ∈ emission.instructions) :
    instruction.out < emission.nextValue := by
  have below := (consistent.numbered.of_mem (Array.mem_toList_iff.mpr member)).2.1
  rwa [Array.length_toList] at below

theorem Consistent.isResult_lt {emission : Emission} (consistent : emission.Consistent)
    {op : Opcode} {first second value : Nat} (isResult : emission.IsResult op first second value) :
    value < emission.nextValue := by
  rcases isResult with plain | ⟨_, swapped⟩
  · exact consistent.lt_nextValue plain
  · exact consistent.lt_nextValue swapped

/-! ## Single instructions -/

section Push

variable {emission : Emission} {instruction : Instruction}
  {constants : Std.HashMap UInt64 Nat} {operations : Std.HashMap (Opcode × Nat × Nat) Nat}

theorem grows_push (emission : Emission) (instruction : Instruction)
    (constants : Std.HashMap UInt64 Nat) (operations : Std.HashMap (Opcode × Nat × Nat) Nat) :
    emission.Grows { emission with
      instructions := emission.instructions.push instruction
      constants
      operations } := by
  refine ⟨rfl, ?_, ?_, fun _ _ lowered => lowered, rfl⟩
  · intro earlier member
    exact Array.mem_push_of_mem instruction member
  · simp [nextValue]

/-- Appending the next result keeps an emission consistent if the tables stay true. -/
theorem Consistent.push (consistent : emission.Consistent)
    (isNext : instruction.out = emission.nextValue)
    (operandsBelow : ∀ value ∈ instruction.operands, value < emission.nextValue)
    (constantsTrue : ∀ ⦃bits value⦄, constants[bits]? = some value →
      emission.constants[bits]? = some value ∨ ∃ literal : Float, literal.toBits = bits ∧
        instruction = ⟨.const, value, unusedOperand, unusedOperand, literal⟩)
    (operationsTrue : ∀ ⦃op first second value⦄, operations[(op, first, second)]? = some value →
      emission.operations[(op, first, second)]? = some value ∨
        instruction = ⟨op, value, first, second, 0⟩) :
    Consistent { emission with
      instructions := emission.instructions.push instruction
      constants
      operations } := by
  have grows := grows_push emission instruction constants operations
  refine ⟨?_, ?_, ?_, ?_⟩
  · simp only [Array.toList_push]
    refine Numbered.append_iff.mpr ⟨consistent.numbered, ?_⟩
    rw [Array.length_toList]
    exact ⟨isNext, operandsBelow, trivial⟩
  · intro bits value found
    rcases constantsTrue found with known | ⟨literal, bitsEq, rfl⟩
    · rcases consistent.constants known with ⟨literal, bitsEq, isConstant⟩
      exact ⟨literal, bitsEq, grows.isConstant isConstant⟩
    · exact ⟨literal, bitsEq, Array.mem_push_self⟩
  · intro op first second value found
    rcases operationsTrue found with known | rfl
    · exact grows.instructions _ (consistent.operations known)
    · exact Array.mem_push_self
  · intro handle values lowered value member
    exact Nat.lt_of_lt_of_le (consistent.lowered lowered value member) grows.nextValue_le

end Push

/-- Nothing is lost, no node becomes lowered, and the result is as specified. -/
structure Reaches {α : Type} (before : Emission) (spec : α → Emission → Prop) (result : α)
    (after : Emission) : Prop where
  consistent : after.Consistent
  grows : before.Grows after
  values_eq : after.values = before.values
  holds : spec result after

theorem Consistent.constant {emission : Emission} (consistent : emission.Consistent) (share : Bool)
    (literal : Float) :
    emission.Reaches (fun value after => after.IsConstant literal value)
      (emission.constant share literal).1 (emission.constant share literal).2 := by
  unfold Emission.constant
  split
  · rename_i known found
    rcases share with _ | _
    · simp at found
    · rcases consistent.constants found with ⟨other, bitsEq, isConstant⟩
      exact ⟨consistent, .refl emission, rfl, eq_of_toBits_eq bitsEq ▸ isConstant⟩
  · refine ⟨consistent.push rfl (by simp [Instruction.operands]) ?_ (fun _ _ _ _ => .inl),
      grows_push .., rfl, Array.mem_push_self⟩
    intro bits value found
    rw [Std.HashMap.getElem?_insert] at found
    split at found
    · rename_i sameBits
      exact .inr ⟨literal, eq_of_beq sameBits, by rw [Option.some.inj found]⟩
    · exact .inl found

theorem Consistent.sortedOperation {emission : Emission} (consistent : emission.Consistent)
    (share : Bool) {op : Opcode} {first second : Nat}
    (below : ∀ value ∈ (⟨op, 0, first, second, 0⟩ : Instruction).operands,
      value < emission.nextValue) :
    emission.Reaches (fun value after => ⟨op, value, first, second, 0⟩ ∈ after.instructions)
      (emission.sortedOperation share op first second).1
      (emission.sortedOperation share op first second).2 := by
  unfold Emission.sortedOperation
  split
  · rename_i known found
    rcases share with _ | _
    · simp at found
    · exact ⟨consistent, .refl emission, rfl, consistent.operations found⟩
  · refine ⟨consistent.push rfl below (fun _ _ => .inl) ?_, grows_push .., rfl,
      Array.mem_push_self⟩
    intro otherOp otherFirst otherSecond value found
    rw [Std.HashMap.getElem?_insert] at found
    split at found
    · rename_i sameKey
      cases eq_of_beq sameKey
      exact .inr (by rw [Option.some.inj found])
    · exact .inl found

theorem Consistent.operation {emission : Emission} (consistent : emission.Consistent)
    (share : Bool) {op : Opcode} {first second : Nat}
    (below : ∀ value ∈ (⟨op, 0, first, second, 0⟩ : Instruction).operands,
      value < emission.nextValue) :
    emission.Reaches (fun value after => after.IsResult op first second value)
      (emission.operation share op first second).1
      (emission.operation share op first second).2 := by
  unfold Emission.operation
  split
  · rename_i swaps
    rw [Bool.and_eq_true] at swaps
    have swappedBelow : ∀ value ∈ (⟨op, 0, second, first, 0⟩ : Instruction).operands,
        value < emission.nextValue := by
      rcases op with _ | op | op
      · simp [Instruction.operands]
      · exact absurd swaps.1 (by simp [Opcode.isCommutative])
      · simp only [Instruction.operands, List.mem_cons, List.not_mem_nil, or_false] at below ⊢
        exact fun value member => below value member.symm
    rcases consistent.sortedOperation share swappedBelow with ⟨after, grows, values, member⟩
    exact ⟨after, grows, values, .inr ⟨swaps.1, member⟩⟩
  · rcases consistent.sortedOperation share below with ⟨after, grows, values, member⟩
    exact ⟨after, grows, values, .inl member⟩

def StoredAt (emission : Emission) (handle : Handle) (index value : Nat) : Prop :=
  ∃ values, emission.Lowered handle values ∧ values[index]? = some value

theorem Grows.storedAt {before after : Emission} (grows : Grows before after) {index value : Nat}
    (stored : before.StoredAt handle index value) :
    after.StoredAt handle index value := by
  rcases stored with ⟨values, lowered, found⟩
  exact ⟨values, grows.lowered lowered, found⟩

theorem Consistent.storedAt_lt {emission : Emission} (consistent : emission.Consistent) {index value : Nat}
    (stored : emission.StoredAt handle index value) :
    value < emission.nextValue := by
  rcases stored with ⟨values, lowered, found⟩
  exact consistent.lowered lowered value (Array.mem_of_getElem? found)

/-- The value of an operand at a position of the result. -/
def ElementAt (graph : Graph) (emission : Emission) (operand : Handle) (position : Nat × Nat)
    (value : Nat) : Prop :=
  ∃ entry, graph.entry operand = .ok entry ∧
    match entry.pattern.operandIndex? position.1 position.2 with
    | some index => emission.StoredAt operand index value
    | none => emission.IsConstant 0 value

theorem Grows.elementAt {before after : Emission} (grows : Grows before after) {operand : Handle}
    {position : Nat × Nat} {value : Nat} (element : ElementAt graph before operand position value) :
    ElementAt graph after operand position value := by
  rcases element with ⟨entry, found, isElement⟩
  refine ⟨entry, found, ?_⟩
  cases index : entry.pattern.operandIndex? position.1 position.2 with
  | none =>
      rw [index] at isElement
      exact grows.isConstant isElement
  | some index =>
      rw [index] at isElement
      exact grows.storedAt isElement

theorem Consistent.elementAt_lt {emission : Emission} (consistent : emission.Consistent) {operand : Handle}
    {position : Nat × Nat} {value : Nat} (element : ElementAt graph emission operand position value) :
    value < emission.nextValue := by
  rcases element with ⟨entry, _, isElement⟩
  cases index : entry.pattern.operandIndex? position.1 position.2 with
  | none =>
      rw [index] at isElement
      exact consistent.lt_nextValue isElement
  | some index =>
      rw [index] at isElement
      exact consistent.storedAt_lt isElement

/-- What the values of a node stand for. -/
inductive Explains (graph : Graph) (emission : Emission) (pattern : Pattern) :
    Node → List Nat → Prop where
  | constant {literal : Float} {value : Nat} (isConstant : emission.IsConstant literal value) :
      Explains graph emission pattern (.constant literal) [value]
  | zeros (nrow ncol : Nat) : Explains graph emission pattern (.zeros nrow ncol) []
  | unary {op : UnaryOp} {operand : Handle} {values : List Nat}
      (results : List.Forall₂ (fun position value => ∃ element,
        ElementAt graph emission operand position element ∧
          emission.IsResult (.unary op) element unusedOperand value) pattern.positions values) :
      Explains graph emission pattern (.unary op operand) values
  | binary {op : BinaryOp} {lhs rhs : Handle} {values : List Nat}
      (results : List.Forall₂ (fun position value => ∃ first second,
        ElementAt graph emission lhs position first ∧
          ElementAt graph emission rhs position second ∧
          emission.IsResult (.binary op) first second value) pattern.positions values) :
      Explains graph emission pattern (.binary op lhs rhs) values
  | concat {kind : ConcatKind} {parts : List Handle} {entries : List Entry}
      {sources : Pattern × List Pattern.PartEntry} {values : List Nat}
      (found : parts.mapM graph.entry = .ok entries)
      (combined : Pattern.concat kind (entries.map Entry.pattern) = .ok sources)
      (routed : List.Forall₂ (fun source value => ∃ part,
        parts[source.1]? = some part ∧ emission.StoredAt part source.2 value) sources.2 values) :
      Explains graph emission pattern (.concat kind parts) values
  | transpose {operand : Handle} {entry : Entry} {sources : Pattern × List Nat}
      {values : List Nat} (found : graph.entry operand = .ok entry)
      (transposed : entry.pattern.transpose = .ok sources)
      (routed : List.Forall₂ (fun index value => emission.StoredAt operand index value)
        sources.2 values) :
      Explains graph emission pattern (.transpose operand) values
  | nonzero {operand : Handle} {index value : Nat}
      (stored : emission.StoredAt operand index value) :
      Explains graph emission pattern (.nonzero operand index) [value]

theorem Grows.explains {before after : Emission} (grows : Grows before after) {node : Node} {values : List Nat}
    (explained : Explains graph before pattern node values) :
    Explains graph after pattern node values := by
  cases explained with
  | constant isConstant => exact .constant (grows.isConstant isConstant)
  | zeros nrow ncol => exact .zeros nrow ncol
  | unary results =>
      refine .unary (results.imp ?_)
      rintro position value ⟨element, isElement, isResult⟩
      exact ⟨element, grows.elementAt isElement, grows.isResult isResult⟩
  | binary results =>
      refine .binary (results.imp ?_)
      rintro position value ⟨first, second, isFirst, isSecond, isResult⟩
      exact ⟨first, second, grows.elementAt isFirst, grows.elementAt isSecond,
        grows.isResult isResult⟩
  | concat found combined routed =>
      refine .concat found combined (routed.imp ?_)
      rintro source value ⟨part, isPart, stored⟩
      exact ⟨part, isPart, grows.storedAt stored⟩
  | transpose found transposed routed =>
      exact .transpose found transposed (routed.imp fun _ _ stored => grows.storedAt stored)
  | nonzero stored => exact .nonzero (grows.storedAt stored)

theorem Explains.isSymbol_eq {emission : Emission} {node : Node} {values : List Nat}
    (explained : Explains graph emission pattern node values) :
    node.isSymbol = false := by
  cases explained <;> rfl

theorem Consistent.explains_lt {emission : Emission} (consistent : emission.Consistent) {node : Node}
    {values : List Nat} (explained : Explains graph emission pattern node values) :
    ∀ value ∈ values, value < emission.nextValue := by
  have ofForall₂ : ∀ {α : Type} {sources : List α} {related : α → Nat → Prop},
      List.Forall₂ related sources values →
      (∀ source value, related source value → value < emission.nextValue) →
      ∀ value ∈ values, value < emission.nextValue := by
    intro α sources related routed below value member
    rcases List.forall₂_iff_zip.mp routed with ⟨length, each⟩
    rcases List.mem_iff_getElem.mp member with ⟨index, inside, rfl⟩
    refine below sources[index] _ (each ?_)
    rw [List.mem_iff_getElem]
    exact ⟨index, by simp [length, inside], by simp⟩
  cases explained with
  | constant isConstant => simpa using consistent.lt_nextValue isConstant
  | zeros nrow ncol => simp
  | unary results =>
      exact ofForall₂ results fun _ _ related => consistent.isResult_lt related.choose_spec.2
  | binary results =>
      refine ofForall₂ results ?_
      rintro position value ⟨first, second, _, _, isResult⟩
      exact consistent.isResult_lt isResult
  | concat _ _ routed =>
      refine ofForall₂ routed ?_
      rintro source value ⟨part, _, stored⟩
      exact consistent.storedAt_lt stored
  | transpose _ _ routed => exact ofForall₂ routed fun _ _ => consistent.storedAt_lt
  | nonzero stored => simpa using consistent.storedAt_lt stored

end Emission

/-! ## Emitting computations -/

namespace EmitM

open Emission

/-- A computation that succeeds on a consistent emission with `pre` only adds to it, and its result
satisfies `spec` then. -/
def Yields {α : Type} (pre : Emission → Prop) (emit : EmitM α) (spec : α → Emission → Prop) :
    Prop :=
  ∀ ⦃before result after⦄, before.Consistent → pre before →
    emit.run before = .ok (result, after) → before.Reaches spec result after

/-- Properties that survive whatever is emitted later. -/
def Stable (property : Emission → Prop) : Prop :=
  ∀ ⦃before after⦄, Grows before after → property before → property after

variable {α β : Type} {pre : Emission → Prop}

theorem Yields.bind {first : EmitM α} {next : α → EmitM β} {between : α → Emission → Prop}
    {spec : β → Emission → Prop} (start : Yields pre first between)
    (continued : ∀ value, Yields (between value) (next value) spec) :
    Yields pre (first >>= next) spec := by
  intro before result after consistent holds ran
  rcases run_bind_eq_ok.mp ran with ⟨value, middle, firstRan, nextRan⟩
  have between := start consistent holds firstRan
  have last := continued value between.consistent between.holds nextRan
  exact ⟨last.consistent, between.grows.trans last.grows, last.values_eq.trans between.values_eq,
    last.holds⟩

theorem Yields.pure {value : α} {spec : α → Emission → Prop}
    (holds : ∀ emission, pre emission → spec value emission) :
    Yields pre (pure value) spec := by
  intro before result after consistent preHolds ran
  rcases run_pure_eq_ok.mp ran with ⟨rfl, rfl⟩
  exact ⟨consistent, .refl before, rfl, holds before preHolds⟩

theorem Yields.lift_bind {first : Except Error α} {next : α → EmitM β}
    {spec : β → Emission → Prop}
    (continued : ∀ value, first = .ok value → Yields pre (next value) spec) :
    Yields pre (liftM first >>= next) spec := by
  intro before result after consistent holds ran
  rcases run_bind_eq_ok.mp ran with ⟨value, middle, firstRan, nextRan⟩
  rcases run_lift_eq_ok.mp firstRan with ⟨found, rfl⟩
  exact continued value found consistent holds nextRan

theorem Yields.throw {cause : Error} {spec : α → Emission → Prop} :
    Yields pre (throw cause) spec := by
  intro before result after _ _ ran
  exact absurd ran run_throw_ne_ok

theorem Yields.keep {emit : EmitM α} {spec : α → Emission → Prop} (yields : Yields pre emit spec)
    (stable : Stable pre) : Yields pre emit fun value emission =>
      spec value emission ∧ pre emission := by
  intro before result after consistent holds ran
  rcases yields consistent holds ran with ⟨last, grows, values, lastHolds⟩
  exact ⟨last, grows, values, lastHolds, stable grows holds⟩

theorem Yields.mono {emit : EmitM α} {weaker : Emission → Prop}
    {spec stronger : α → Emission → Prop} (yields : Yields weaker emit stronger)
    (before : ∀ emission, pre emission → weaker emission)
    (after : ∀ value emission, stronger value emission → spec value emission) :
    Yields pre emit spec := by
  intro start result final consistent holds ran
  rcases yields consistent (before start holds) ran with ⟨last, grows, values, lastHolds⟩
  exact ⟨last, grows, values, after _ _ lastHolds⟩

theorem Yields.mapM {elements : List α} {emit : α → EmitM β} {spec : α → β → Emission → Prop}
    (stable : Stable pre) (specStable : ∀ element value, Stable (spec element value))
    (each : ∀ element ∈ elements, Yields pre (emit element) (spec element)) :
    Yields pre (elements.mapM emit) fun values emission =>
      List.Forall₂ (fun element value => spec element value emission) elements values := by
  induction elements with
  | nil =>
      rw [List.mapM_nil]
      exact .pure fun _ _ => .nil
  | cons element elements ih =>
      rw [List.mapM_cons]
      refine ((each element (List.mem_cons_self ..)).keep stable).bind fun value => ?_
      have later := ih fun other member => each other (List.mem_cons_of_mem _ member)
      refine ((later.mono (fun _ holds => holds.2) fun _ _ found => found).keep ?_).bind
        fun values => .pure fun _ holds => .cons holds.2.1 holds.1
      exact fun _ _ grows holds => ⟨specStable _ _ grows holds.1, stable grows holds.2⟩

/-! ## Nodes -/

theorem stable_true : Stable fun _ => True :=
  fun _ _ _ _ => trivial

theorem yields_stored (handle : Handle) (index : Nat) :
    Yields pre (stored handle index) fun value emission =>
      emission.StoredAt handle index value := by
  intro before result after consistent _ ran
  rcases run_bind_eq_ok.mp ran with ⟨emission, middle, got, continued⟩
  rcases run_get_eq_ok.mp got with ⟨sameEmission, sameMiddle⟩
  rw [sameEmission, sameMiddle] at continued
  split at continued
  · rename_i value found
    rcases run_pure_eq_ok.mp continued with ⟨rfl, rfl⟩
    refine ⟨consistent, .refl before, rfl, ?_⟩
    simp only [Emission.lowered] at found
    cases lowered : before.values[handle.index]? with
    | none => simp [lowered] at found
    | some values? =>
        rcases values? with _ | values
        · simp [lowered] at found
        · exact ⟨values, lowered, by simpa [lowered] using found⟩
  · exact absurd continued run_throw_ne_ok

theorem yields_constant (share : Bool) (literal : Float) :
    Yields pre (modifyGet fun emission => emission.constant share literal)
      fun value emission => emission.IsConstant literal value := by
  intro before result after consistent _ ran
  have emitted := run_modifyGet_eq_ok.mp ran
  have reached := consistent.constant share literal
  rwa [emitted] at reached

theorem yields_operation (share : Bool) {op : Opcode} {first second : Nat}
    (below : ∀ emission, emission.Consistent → pre emission →
      ∀ value ∈ (⟨op, 0, first, second, 0⟩ : Instruction).operands, value < emission.nextValue) :
    Yields pre (modifyGet fun emission => emission.operation share op first second)
      fun value emission => emission.IsResult op first second value := by
  intro before result after consistent holds ran
  have emitted := run_modifyGet_eq_ok.mp ran
  have reached := consistent.operation share (below before consistent holds)
  rwa [emitted] at reached

theorem yields_element (graph : Graph) (share : Bool) (operand : Handle) (position : Nat × Nat) :
    Yields pre (element graph share operand position.1 position.2) fun value emission =>
      ElementAt graph emission operand position value := by
  refine .lift_bind fun entry found => ?_
  cases index : entry.pattern.operandIndex? position.1 position.2 with
  | none =>
      refine (yields_constant share 0).mono (fun _ holds => holds) ?_
      intro value emission isConstant
      exact ⟨entry, found, by rwa [index]⟩
  | some index' =>
      refine (yields_stored operand index').mono (fun _ holds => holds) ?_
      intro value emission isStored
      exact ⟨entry, found, by rwa [index]⟩

theorem stable_elementAt (graph : Graph) (operand : Handle) (position : Nat × Nat) (value : Nat) :
    Stable fun emission => ElementAt graph emission operand position value :=
  fun _ _ grows => grows.elementAt

theorem yields_unary (graph : Graph) (share : Bool) (op : UnaryOp) (operand : Handle)
    (position : Nat × Nat) :
    Yields pre (do
        let value ← element graph share operand position.1 position.2
        modifyGet fun emission => emission.operation share (.unary op) value unusedOperand)
      fun value emission => ∃ element, ElementAt graph emission operand position element ∧
        emission.IsResult (.unary op) element unusedOperand value := by
  refine (yields_element graph share operand position).bind fun first => ?_
  have operation : Yields (fun emission => ElementAt graph emission operand position first)
      (modifyGet fun emission => emission.operation share (.unary op) first unusedOperand)
      fun value emission => emission.IsResult (.unary op) first unusedOperand value := by
    refine yields_operation share ?_
    intro emission consistent isElement value member
    rw [List.mem_singleton.mp member]
    exact consistent.elementAt_lt isElement
  refine (operation.keep (stable_elementAt ..)).mono (fun _ holds => holds) ?_
  exact fun value emission holds => ⟨first, holds.2, holds.1⟩

theorem yields_binary (graph : Graph) (share : Bool) (op : BinaryOp) (lhs rhs : Handle)
    (position : Nat × Nat) :
    Yields pre (do
        let first ← element graph share lhs position.1 position.2
        let second ← element graph share rhs position.1 position.2
        modifyGet fun emission => emission.operation share (.binary op) first second)
      fun value emission => ∃ first second, ElementAt graph emission lhs position first ∧
        ElementAt graph emission rhs position second ∧
        emission.IsResult (.binary op) first second value := by
  refine (yields_element graph share lhs position).bind fun first => ?_
  refine ((yields_element graph share rhs position).keep (stable_elementAt ..)).bind
    fun second => ?_
  have stable : Stable fun emission => ElementAt graph emission rhs position second ∧
      ElementAt graph emission lhs position first :=
    fun _ _ grows holds => ⟨grows.elementAt holds.1, grows.elementAt holds.2⟩
  have operation : Yields (fun emission => ElementAt graph emission rhs position second ∧
        ElementAt graph emission lhs position first)
      (modifyGet fun emission => emission.operation share (.binary op) first second)
      fun value emission => emission.IsResult (.binary op) first second value := by
    refine yields_operation share ?_
    intro emission consistent elements value member
    simp only [Instruction.operands, List.mem_cons, List.not_mem_nil, or_false] at member
    rcases member with rfl | rfl
    · exact consistent.elementAt_lt elements.2
    · exact consistent.elementAt_lt elements.1
  refine (operation.keep stable).mono (fun _ holds => holds) ?_
  exact fun value emission holds => ⟨first, second, holds.2.2, holds.2.1, holds.1⟩

theorem yields_part (parts : List Handle) (source : Pattern.PartEntry) :
    Yields pre (match parts[source.1]? with
        | some part => stored part source.2
        | none => throw (.violation .entryOutOfRange))
      fun value emission => ∃ part, parts[source.1]? = some part ∧
        emission.StoredAt part source.2 value := by
  cases isPart : parts[source.1]? with
  | none => exact .throw
  | some part =>
      refine (yields_stored part source.2).mono (fun _ holds => holds) ?_
      exact fun value emission isStored => ⟨part, rfl, isStored⟩

theorem yields_lowerNode (graph : Graph) (share : Bool) (handle : Handle) (pattern : Pattern)
    (node : Node) :
    Yields (fun _ => True) (lowerNode graph share handle pattern node) fun values emission =>
      Explains graph emission pattern node values := by
  cases node with
  | symbol index => exact .throw
  | constant literal =>
      refine (yields_constant share literal).bind fun value => .pure fun emission isConstant => ?_
      exact .constant isConstant
  | zeros nrow ncol => exact .pure fun emission _ => .zeros nrow ncol
  | unary op operand =>
      refine (Yields.mapM stable_true ?_ fun position _ =>
        yields_unary graph share op operand position).mono (fun _ holds => holds)
        fun values emission results => .unary results
      rintro position value before after grows ⟨first, isElement, isResult⟩
      exact ⟨first, grows.elementAt isElement, grows.isResult isResult⟩
  | binary op lhs rhs =>
      refine (Yields.mapM stable_true ?_ fun position _ =>
        yields_binary graph share op lhs rhs position).mono (fun _ holds => holds)
        fun values emission results => .binary results
      rintro position value before after grows ⟨first, second, isFirst, isSecond, isResult⟩
      exact ⟨first, second, grows.elementAt isFirst, grows.elementAt isSecond,
        grows.isResult isResult⟩
  | concat kind parts =>
      refine .lift_bind fun entries found => .lift_bind fun sources combined => ?_
      refine (Yields.mapM stable_true ?_ fun source _ => yields_part parts source).mono
        (fun _ holds => holds) fun values emission routed => .concat found combined routed
      rintro source value before after grows ⟨part, isPart, isStored⟩
      exact ⟨part, isPart, grows.storedAt isStored⟩
  | transpose operand =>
      refine .lift_bind fun entry found => .lift_bind fun sources transposed => ?_
      refine (Yields.mapM stable_true ?_ fun index _ => yields_stored operand index).mono
        (fun _ holds => holds) fun values emission routed => .transpose found transposed routed
      exact fun index value before after grows => grows.storedAt
  | nonzero operand index =>
      refine (yields_stored operand index).bind fun value => .pure fun emission isStored => ?_
      exact .nonzero isStored

theorem yields_lower (graph : Graph) (share : Bool) (handle : Handle) :
    Yields (fun _ => True) (lower graph share handle) fun values emission => ∃ entry,
      graph.entry handle = .ok entry ∧
        Explains graph emission entry.pattern entry.node values := by
  refine .lift_bind fun entry found => ?_
  refine (yields_lowerNode graph share handle entry.pattern entry.node).mono
    (fun _ holds => holds) ?_
  exact fun values emission explained => ⟨entry, found, explained⟩

end EmitM

end Autodiff
