import Autodiff.Proofs.Tape.Slots

/-!
# Execution over a meaning

A meaning gives every literal and every opcode a value or a function. It fixes what an instruction
computes from the elements of its operands, and the primal sweep over an algebra with this meaning
executes the instructions one after the other (`Algebra.Evaluates.primal`). Rules for the derivatives of the
opcodes fix the partials that a run records (`recordAll`).
-/

namespace Autodiff

structure Meaning (K : Type) where
  literal : Float → K
  unary : UnaryOp → K → K
  binary : BinaryOp → K → K → K

variable {K : Type} (meaning : Meaning K)

namespace Instruction

def result (instruction : Instruction) (value : Nat → K) : K :=
  match instruction.op with
  | .const => meaning.literal instruction.literal
  | .unary op => meaning.unary op (value instruction.fst)
  | .binary op => meaning.binary op (value instruction.fst) (value instruction.snd)

theorem result_congr {instruction : Instruction} {first second : Nat → K}
    (same : ∀ operand ∈ instruction.operands, first operand = second operand) :
    instruction.result meaning first = instruction.result meaning second := by
  cases operation : instruction.op <;> simp_all [result, operands]

/-- The executed instruction, given what the slots hold; an operand that is not read counts as zero. -/
def executed (instruction : Instruction) (zero : K) (value : Nat → K) : Step K :=
  match instruction.op with
  | .const => ⟨zero, zero, instruction.result meaning value⟩
  | .unary _ => ⟨value instruction.fst, zero, instruction.result meaning value⟩
  | .binary _ =>
      ⟨value instruction.fst, value instruction.snd, instruction.result meaning value⟩

@[simp] theorem result_executed (instruction : Instruction) (zero : K) (value : Nat → K) :
    (instruction.executed meaning zero value).result = instruction.result meaning value := by
  rw [executed]
  split <;> rfl

def execute (value : Nat → K) (instruction : Instruction) : Nat → K :=
  Function.update value instruction.out (instruction.result meaning value)

end Instruction

def executeAll (instructions : List Instruction) (value : Nat → K) : Nat → K :=
  instructions.foldl (Instruction.execute meaning) value

/-! ## The primal sweep -/

/-- The elements of an algebra have a given meaning, and every result is accepted. -/
structure Algebra.Interprets (algebra : Algebra (Except Error) K) : Prop where
  constant : ∀ literal, algebra.constant literal = .ok (meaning.literal literal)
  unary : ∀ op operand unread,
    algebra.eval (.unary op) operand unread = .ok (meaning.unary op operand)
  binary : ∀ op left right, algebra.eval (.binary op) left right = .ok (meaning.binary op left right)
  admissible : ∀ op left right result, algebra.admissible op left right result

/-- The elements of an algebra have a given meaning where a sweep asks for it: an operand that is not read
is zero. -/
structure Algebra.Evaluates (algebra : Algebra (Except Error) K) : Prop where
  constant : ∀ literal, algebra.constant literal = .ok (meaning.literal literal)
  unary : ∀ op operand,
    algebra.eval (.unary op) operand algebra.zero = .ok (meaning.unary op operand)
  binary : ∀ op left right, algebra.eval (.binary op) left right = .ok (meaning.binary op left right)
  admissible : ∀ op left right result, algebra.admissible op left right result

variable {meaning} {algebra : Algebra (Except Error) K} {size : Nat}

theorem Algebra.Interprets.evaluates (interprets : algebra.Interprets meaning) :
    algebra.Evaluates meaning :=
  ⟨interprets.constant, fun op operand => interprets.unary op operand _, interprets.binary,
    interprets.admissible⟩

namespace Algebra.Evaluates

theorem step (evaluates : algebra.Evaluates meaning) (value : Nat → K)
    {instruction : Instruction} (inside : ∀ operand ∈ instruction.operands, operand < size)
    (index : Nat) :
    instruction.step algebra index (slotArray size value) =
      .ok (instruction.executed meaning algebra.zero value) := by
  rcases instruction with ⟨_ | op | op, out, fst, snd, literal⟩
  · simp only [Instruction.step, Instruction.load, pure_bind, evaluates.constant, ok_bind]
    rfl
  · have fstInside := inside fst (by simp [Instruction.operands])
    simp only [Instruction.step, Instruction.load, readSlot_slotArray fstInside, ok_bind, pure_bind,
      evaluates.unary, evaluates.admissible, if_true]
    rfl
  · have fstInside := inside fst (by simp [Instruction.operands])
    have sndInside := inside snd (by simp [Instruction.operands])
    simp only [Instruction.step, Instruction.load, readSlot_slotArray fstInside,
      readSlot_slotArray sndInside, ok_bind, pure_bind, evaluates.binary, evaluates.admissible,
      if_true]
    rfl

theorem primalStep (evaluates : algebra.Evaluates meaning) (value : Nat → K)
    {instruction : Instruction} (inside : instruction.Below size) (index : Nat) :
    Autodiff.primalStep algebra (slotArray size value) (instruction, index) =
      .ok (slotArray size (instruction.execute meaning value)) := by
  simp only [Autodiff.primalStep, evaluates.step value inside.operands, ok_bind,
    writeSlot_slotArray inside.out, Instruction.result_executed]
  rfl

theorem primal (evaluates : algebra.Evaluates meaning) (value : Nat → K)
    {instructions : List Instruction}
    (inside : ∀ instruction ∈ instructions, instruction.Below size) (start : Nat) :
    (instructions.zipIdx start).foldlM (Autodiff.primalStep algebra) (slotArray size value) =
      .ok (slotArray size (executeAll meaning instructions value)) := by
  induction instructions generalizing value start with
  | nil => rfl
  | cons first instructions ih =>
      rw [List.forall_mem_cons] at inside
      rw [List.zipIdx_cons, List.foldlM_cons, evaluates.primalStep value inside.1 start, ok_bind,
        ih (first.execute meaning value) inside.2 (start + 1)]
      rfl

end Algebra.Evaluates

/-! ## Partials -/

/-- Rules for the partials of the opcodes, given the operands and the result. -/
structure DerivativeRules (K : Type) where
  unary : UnaryOp → K → K → K
  binary : BinaryOp → K → K → K → K × K

section Weighted

variable [Zero K] (rules : DerivativeRules K) (meaning : Meaning K)

def Instruction.weighted (instruction : Instruction) (value : Nat → K) : K × K :=
  match instruction.op with
  | .const => (0, 0)
  | .unary op => (rules.unary op (value instruction.fst) (instruction.result meaning value), 0)
  | .binary op => rules.binary op (value instruction.fst) (value instruction.snd)
      (instruction.result meaning value)

/-- The partials of all instructions, the last one first, put before a given record. -/
def recordAll : List Instruction → (Nat → K) → Record K → Record K
  | [], _, record => record
  | instruction :: instructions, value, record =>
      recordAll instructions (instruction.execute meaning value)
        ((instruction, instruction.weighted rules meaning value) :: record)

theorem map_fst_recordAll (instructions : List Instruction) (value : Nat → K) (record : Record K) :
    (recordAll rules meaning instructions value record).map Prod.fst =
      instructions.reverse ++ record.map Prod.fst := by
  induction instructions generalizing value record with
  | nil => rfl
  | cons instruction instructions ih => simp [recordAll, ih]

end Weighted

end Autodiff
