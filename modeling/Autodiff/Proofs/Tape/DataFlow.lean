import Autodiff.Proofs.Tape.Execution
import Autodiff.Proofs.Tape.PureSweeps
import Mathlib.Logic.Relation

/-!
# Data flow

What a slot holds at the end of a list of instructions is reached by data from what other slots held at the
start. `FlowsTo` states this by paths: an operand that is read connects to the latest earlier write of its
slot, and a constant reads nothing. `Passes` states it by composing what single instructions do, which is
the form that inductions over the instructions use. Both say the same (`flowsTo_iff_passes`).

Data flow bounds all sweeps. Only what flows to a slot decides what it holds in the end
(`executeAll_congr`) and its tangent (`pushAll_congr`); only what a slot flows to decides its adjoint
(`pullAll_congr`). None of this needs a law of the elements.
-/

namespace Autodiff

/-! ## Paths -/

/-- Where the element in a slot comes from: it was there from the start, or an instruction computed
it. -/
inductive Origin where
  | start (slot : Nat)
  | result (index : Nat)

variable (instructions : List Instruction)

/-- No instruction from number `first` on and before number `time` writes to the slot. -/
def Unwritten (slot first time : Nat) : Prop :=
  ∀ ⦃index instruction⦄, first ≤ index → index < time → instructions[index]? = some instruction →
    instruction.out ≠ slot

/-- The origin of what a slot holds before the instruction with number `time`: the latest earlier write
to it. -/
inductive Supplies (slot time : Nat) : Origin → Prop where
  | start (unwritten : Unwritten instructions slot 0 time) : Supplies slot time (.start slot)
  | result {index : Nat} {instruction : Instruction}
      (found : instructions[index]? = some instruction) (writes : instruction.out = slot)
      (earlier : index < time) (latest : Unwritten instructions slot (index + 1) time) :
      Supplies slot time (.result index)

/-- An instruction computes its result from what its operands hold. -/
inductive Feeds : Origin → Origin → Prop where
  | operand {origin : Origin} {index operand : Nat} {instruction : Instruction}
      (found : instructions[index]? = some instruction) (isOperand : operand ∈ instruction.operands)
      (supplies : Supplies instructions operand index origin) : Feeds origin (.result index)

/-- A path leads from what a slot held at the start to what a slot holds at the end. -/
def FlowsTo (source target : Nat) : Prop :=
  ∃ origin, Supplies instructions target instructions.length origin ∧
    Relation.ReflTransGen (Feeds instructions) (.start source) origin

variable {instructions}

theorem unwritten_succ {slot first time : Nat} {instruction : Instruction}
    (found : instructions[time]? = some instruction) (past : first ≤ time) :
    Unwritten instructions slot first (time + 1) ↔
      Unwritten instructions slot first time ∧ instruction.out ≠ slot := by
  constructor
  · intro unwritten
    refine ⟨fun index other after before => unwritten after (by omega), ?_⟩
    exact unwritten past (by omega) found
  · rintro ⟨unwritten, different⟩ index other after before isOther
    rcases Nat.lt_succ_iff_lt_or_eq.mp before with earlier | rfl
    · exact unwritten after earlier isOther
    · cases found.symm.trans isOther
      exact different

theorem supplies_succ {slot time : Nat} {instruction : Instruction} {origin : Origin}
    (found : instructions[time]? = some instruction) :
    Supplies instructions slot (time + 1) origin ↔
      if slot = instruction.out then origin = .result time
      else Supplies instructions slot time origin := by
  split
  · rename_i isOut
    subst isOut
    constructor
    · intro supplies
      cases supplies with
      | start unwritten => exact absurd rfl ((unwritten_succ found (by omega)).mp unwritten).2
      | @result index _ isWriter writes earlier latest =>
          rcases Nat.lt_succ_iff_lt_or_eq.mp earlier with before | rfl
          · exact absurd rfl ((unwritten_succ found before).mp latest).2
          · rfl
    · rintro rfl
      refine .result found rfl (by omega) ?_
      intro index other after before
      omega
  · rename_i different
    have kept : instruction.out ≠ slot := fun same => different same.symm
    constructor
    · intro supplies
      cases supplies with
      | start unwritten => exact .start ((unwritten_succ found (by omega)).mp unwritten).1
      | @result index writer isWriter writes earlier latest =>
          rcases Nat.lt_succ_iff_lt_or_eq.mp earlier with before | rfl
          · exact .result isWriter writes before ((unwritten_succ found before).mp latest).1
          · cases found.symm.trans isWriter
            exact absurd writes kept
    · intro supplies
      cases supplies with
      | start unwritten => exact .start ((unwritten_succ found (by omega)).mpr ⟨unwritten, kept⟩)
      | result isWriter writes earlier latest =>
          exact .result isWriter writes (by omega)
            ((unwritten_succ found earlier).mpr ⟨latest, kept⟩)

theorem reaches_result {source index : Nat} {instruction : Instruction}
    (found : instructions[index]? = some instruction) :
    Relation.ReflTransGen (Feeds instructions) (.start source) (.result index) ↔
      ∃ operand ∈ instruction.operands, ∃ origin, Supplies instructions operand index origin ∧
        Relation.ReflTransGen (Feeds instructions) (.start source) origin := by
  constructor
  · intro path
    rcases Relation.ReflTransGen.cases_tail path with same | ⟨origin, before, last⟩
    · cases same
    · cases last with
      | operand isInstruction isOperand supplies =>
          cases found.symm.trans isInstruction
          exact ⟨_, isOperand, origin, supplies, before⟩
  · rintro ⟨operand, isOperand, origin, supplies, before⟩
    exact before.tail (.operand found isOperand supplies)

/-! ## Composition of instructions -/

namespace Instruction

/-- An instruction passes data from its operands to its result and leaves every other slot alone. -/
def Passes (instruction : Instruction) (before after : Nat) : Prop :=
  if after = instruction.out then before ∈ instruction.operands else before = after

variable {instruction : Instruction} {before after : Nat}

@[simp] theorem passes_out :
    instruction.Passes before instruction.out ↔ before ∈ instruction.operands := by
  simp [Passes]

theorem passes_of_ne (different : after ≠ instruction.out) :
    instruction.Passes before after ↔ before = after := by
  simp [Passes, different]

theorem exists_passes_to {holds : Nat → Prop} :
    (∃ before, instruction.Passes before after ∧ holds before) ↔
      if after = instruction.out then ∃ operand ∈ instruction.operands, holds operand
      else holds after := by
  split
  · rename_i isOut
    simp [isOut]
  · rename_i different
    simp [passes_of_ne different]

theorem exists_passes_from {holds : Nat → Prop} :
    (∃ after, instruction.Passes before after ∧ holds after) ↔
      (before ≠ instruction.out ∧ holds before) ∨
        (before ∈ instruction.operands ∧ holds instruction.out) := by
  constructor
  · rintro ⟨after, passes, held⟩
    by_cases isOut : after = instruction.out
    · subst isOut
      exact .inr ⟨passes_out.mp passes, held⟩
    · cases (passes_of_ne isOut).mp passes
      exact .inl ⟨isOut, held⟩
  · rintro (⟨different, held⟩ | ⟨isOperand, held⟩)
    · exact ⟨before, (passes_of_ne different).mpr rfl, held⟩
    · exact ⟨instruction.out, passes_out.mpr isOperand, held⟩

end Instruction

/-- A list of instructions passes data on from one instruction to the next. -/
def Passes : List Instruction → Nat → Nat → Prop
  | [], before, after => before = after
  | instruction :: rest, before, after =>
      ∃ between, instruction.Passes before between ∧ Passes rest between after

theorem passes_append {first second : List Instruction} {before after : Nat} :
    Passes (first ++ second) before after ↔
      ∃ between, Passes first before between ∧ Passes second between after := by
  induction first generalizing before with
  | nil => simp [Passes]
  | cons instruction first ih =>
      simp only [List.cons_append, Passes, ih]
      constructor
      · rintro ⟨next, head, between, middle, tail⟩
        exact ⟨between, ⟨next, head, middle⟩, tail⟩
      · rintro ⟨between, ⟨next, head, middle⟩, tail⟩
        exact ⟨next, head, between, middle, tail⟩

theorem passes_singleton {instruction : Instruction} {before after : Nat} :
    Passes [instruction] before after ↔ instruction.Passes before after := by
  simp [Passes]

/-- Paths that end before the instruction with number `time`. -/
theorem passes_take {source slot time : Nat} (inside : time ≤ instructions.length) :
    Passes (instructions.take time) source slot ↔
      ∃ origin, Supplies instructions slot time origin ∧
        Relation.ReflTransGen (Feeds instructions) (.start source) origin := by
  induction time generalizing slot with
  | zero =>
      constructor
      · rintro ⟨⟩
        refine ⟨.start source, .start ?_, .refl⟩
        intro index instruction _ before
        omega
      · rintro ⟨origin, supplies, path⟩
        cases supplies with
        | start _ =>
            rcases Relation.ReflTransGen.cases_tail path with same | ⟨_, _, last⟩
            · cases same
              rfl
            · cases last
        | result _ _ earlier => omega
  | succ time ih =>
      have found : instructions[time]? = some instructions[time] := List.getElem?_eq_getElem inside
      have earlier : time ≤ instructions.length := by omega
      simp only [List.take_add_one, found, Option.toList_some, passes_append, passes_singleton,
        supplies_succ found, ih earlier]
      by_cases isOut : slot = instructions[time].out
      · simp only [isOut, Instruction.passes_out, if_true, exists_eq_left, reaches_result found]
        constructor
        · rintro ⟨operand, ⟨origin, supplies, path⟩, isOperand⟩
          exact ⟨operand, isOperand, origin, supplies, path⟩
        · rintro ⟨operand, isOperand, origin, supplies, path⟩
          exact ⟨operand, ⟨origin, supplies, path⟩, isOperand⟩
      · simp only [Instruction.passes_of_ne isOut, isOut, if_false, exists_eq_right]

theorem flowsTo_iff_passes {source target : Nat} :
    FlowsTo instructions source target ↔ Passes instructions source target := by
  rw [FlowsTo, ← passes_take (Nat.le_refl _), List.take_length]

/-! ## Values -/

/-- Only what flows to a slot decides what it holds in the end. -/
theorem executeAll_congr {K : Type} (meaning : Meaning K) {first second : Nat → K} {slot : Nat}
    (agree : ∀ source, Passes instructions source slot → first source = second source) :
    executeAll meaning instructions first slot = executeAll meaning instructions second slot := by
  induction instructions generalizing first second with
  | nil => exact agree slot rfl
  | cons instruction instructions ih =>
      apply ih
      intro between flows
      by_cases isOut : between = instruction.out
      · subst isOut
        simp only [Instruction.execute, Function.update_self]
        apply Instruction.result_congr
        intro operand isOperand
        exact agree operand ⟨instruction.out, Instruction.passes_out.mpr isOperand, flows⟩
      · simp only [Instruction.execute, Function.update_of_ne isOut]
        exact agree between ⟨between, (Instruction.passes_of_ne isOut).mpr rfl, flows⟩

/-- A mark that results inherit from their operands and nothing else has. -/
structure Meaning.Inherits {K : Type} (meaning : Meaning K) (marked : K → Prop) : Prop where
  literal : ∀ literal, ¬marked (meaning.literal literal)
  unary : ∀ op operand, marked (meaning.unary op operand) ↔ marked operand
  binary : ∀ op left right, marked (meaning.binary op left right) ↔ marked left ∨ marked right

section Marks

variable {K : Type} {meaning : Meaning K} {marked : K → Prop} (inherits : meaning.Inherits marked)
  {value : Nat → K}
include inherits

theorem Instruction.marked_result {instruction : Instruction} :
    marked (instruction.result meaning value) ↔
      ∃ operand ∈ instruction.operands, marked (value operand) := by
  cases operation : instruction.op <;>
    simp [Instruction.result, Instruction.operands, operation, inherits.literal, inherits.unary,
      inherits.binary]

theorem Instruction.marked_execute {instruction : Instruction} {after : Nat} :
    marked (instruction.execute meaning value after) ↔
      ∃ before, instruction.Passes before after ∧ marked (value before) := by
  rw [Instruction.exists_passes_to, Instruction.execute, Function.update_apply]
  split
  · exact marked_result inherits
  · rfl

theorem marked_executeAll {target : Nat} :
    marked (executeAll meaning instructions value target) ↔
      ∃ source, Passes instructions source target ∧ marked (value source) := by
  induction instructions generalizing value with
  | nil => simp [executeAll, Passes]
  | cons instruction instructions ih =>
      refine ih.trans ?_
      simp only [Instruction.marked_execute inherits, Passes]
      constructor
      · rintro ⟨between, flows, source, passes, seeded⟩
        exact ⟨source, ⟨between, passes, flows⟩, seeded⟩
      · rintro ⟨source, ⟨between, passes, flows⟩, seeded⟩
        exact ⟨between, flows, source, passes, seeded⟩

end Marks

/-! ## Tangents and adjoints -/

namespace Arithmetic

variable {α : Type} (arithmetic : Arithmetic α)

theorem tangent_congr {instruction : Instruction} (weights : α × α) {first second : Nat → α}
    (same : ∀ operand ∈ instruction.operands, first operand = second operand) :
    arithmetic.tangent instruction weights first = arithmetic.tangent instruction weights second := by
  cases operation : instruction.op <;> simp_all [tangent, Instruction.operands]

theorem passes_cons {recorded : Instruction × (α × α)} {record : Record α} {before after : Nat} :
    Passes ((recorded :: record : Record α).map Prod.fst).reverse before after ↔
      ∃ between, Passes (record.map Prod.fst).reverse before between ∧
        recorded.1.Passes between after := by
  rw [List.map_cons, List.reverse_cons, passes_append]
  simp only [passes_singleton]

theorem pushAll_congr {record : Record α} {first second : Nat → α} {slot : Nat}
    (agree : ∀ source, Passes (record.map Prod.fst).reverse source slot →
      first source = second source) :
    arithmetic.pushAll record first slot = arithmetic.pushAll record second slot := by
  induction record generalizing slot with
  | nil => exact agree slot rfl
  | cons recorded record ih =>
      simp only [passes_cons] at agree
      simp only [pushAll, List.foldr_cons, push]
      by_cases isOut : slot = recorded.1.out
      · subst isOut
        simp only [Function.update_self]
        apply tangent_congr
        intro operand isOperand
        apply ih
        intro source flows
        exact agree source ⟨operand, flows, Instruction.passes_out.mpr isOperand⟩
      · simp only [Function.update_of_ne isOut]
        apply ih
        intro source flows
        exact agree source ⟨slot, flows, (Instruction.passes_of_ne isOut).mpr rfl⟩

theorem pull_congr {instruction : Instruction} (weights : α × α) {first second : Nat → α}
    {slot : Nat} (agree : ∀ target, instruction.Passes slot target → first target = second target) :
    arithmetic.pull instruction weights first slot =
      arithmetic.pull instruction weights second slot := by
  have kept : Function.update first instruction.out arithmetic.zero slot =
      Function.update second instruction.out arithmetic.zero slot := by
    by_cases isOut : slot = instruction.out
    · simp [isOut]
    · simpa [isOut] using agree slot ((Instruction.passes_of_ne isOut).mpr rfl)
  simp only [pull, deposit, foldl_update_apply, kept]
  by_cases isOperand : slot ∈ instruction.operands
  · rw [agree instruction.out (Instruction.passes_out.mpr isOperand)]
  · -- A slot that is not an operand gets no share.
    have none : ∀ adjoint, (arithmetic.shares instruction weights adjoint).filter (·.1 = slot) =
        [] := by
      intro adjoint
      rw [List.filter_eq_nil_iff]
      intro share member isSlot
      rw [shares] at member
      split at member
      · cases member
      · rcases List.mem_map.mp member with ⟨weighted, isShare, rfl⟩
        have same : weighted.1 = slot := of_decide_eq_true isSlot
        apply isOperand
        rw [← instruction.map_fst_shares weights, ← same]
        exact List.mem_map_of_mem isShare
    rw [none, none]

theorem pullAll_congr {record : Record α} {first second : Nat → α} {slot : Nat}
    (agree : ∀ target, Passes (record.map Prod.fst).reverse slot target →
      first target = second target) :
    arithmetic.pullAll record first slot = arithmetic.pullAll record second slot := by
  induction record generalizing first second with
  | nil => exact agree slot rfl
  | cons recorded record ih =>
      apply ih
      intro between flows
      apply pull_congr
      intro target passed
      exact agree target (passes_cons.mpr ⟨between, flows, passed⟩)

/-! ## Zero directions -/

variable {arithmetic} (known : arithmetic.isZero arithmetic.zero = true)
include known

theorem pushAll_zero (record : Record α) :
    arithmetic.pushAll record (fun _ => arithmetic.zero) = fun _ => arithmetic.zero := by
  induction record with
  | nil => rfl
  | cons recorded record ih =>
      have still : arithmetic.tangent recorded.1 recorded.2 (fun _ => arithmetic.zero) =
          arithmetic.zero := by
        cases operation : recorded.1.op <;> simp [tangent, share, operation, known]
      simp only [pushAll, List.foldr_cons] at ih ⊢
      rw [ih, push, still]
      exact Function.update_eq_self ..

theorem pullAll_zero (record : Record α) :
    arithmetic.pullAll record (fun _ => arithmetic.zero) = fun _ => arithmetic.zero := by
  induction record with
  | nil => rfl
  | cons recorded record ih =>
      have still : arithmetic.pull recorded.1 recorded.2 (fun _ => arithmetic.zero) =
          fun _ => arithmetic.zero := by
        simp only [pull, shares, known, if_true]
        exact Function.update_eq_self ..
      simp only [pullAll, List.foldl_cons, still] at ih ⊢
      exact ih

end Arithmetic

end Autodiff
