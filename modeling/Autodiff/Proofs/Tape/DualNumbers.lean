import Autodiff.Proofs.Scalar.Exact
import Mathlib.Algebra.DualNumber
import Mathlib.Tactic.LinearCombination

/-!
# Dual numbers

Executing a tape over dual numbers carries a value and its derivative through every instruction. On the
rational opcodes the derivative parts are exactly the tangents that the partials of the instructions push
forward: one identity per opcode (`Scalar.Lifts.unary`, `Scalar.Lifts.binary`), combined for
an instruction (`Scalar.Lifts.result`) and, by induction, for a run (`Scalar.Lifts.run`). A quotient over
dual numbers is recognised by multiplying it with its divisor, which is a unit as soon as its value is not
zero.
-/

namespace Autodiff

variable {instruction : Instruction} {instructions : List Instruction}

open TrivSqZeroExt

/-- The operations that compute rational functions of their operands. -/
def Opcode.isRational : Opcode → Bool
  | .const | .unary .neg | .unary .recip | .unary .sq => true
  | .binary .add | .binary .sub | .binary .mul | .binary .div => true
  | _ => false

def Instruction.divisor? (instruction : Instruction) : Option Nat :=
  match instruction.op with
  | .unary .recip => some instruction.fst
  | .binary .div => some instruction.snd
  | _ => none

theorem Instruction.divisor_mem_operands {divisor : Nat} (divides : divisor ∈ instruction.divisor?) :
    divisor ∈ instruction.operands := by
  rw [divisor?] at divides
  split at divides <;> simp_all [operands]

/-- Nothing that the instructions divide by is zero, when they are executed one after the other. -/
def NonzeroDivisors {α : Type} [Zero α] (meaning : Meaning α) : List Instruction → (Nat → α) → Prop
  | [], _ => True
  | instruction :: instructions, value =>
      (∀ divisor ∈ instruction.divisor?, value divisor ≠ 0) ∧
        NonzeroDivisors meaning instructions (instruction.execute meaning value)

theorem nonzeroDivisors_iff {α : Type} [Zero α] {meaning : Meaning α} {value : Nat → α} :
    NonzeroDivisors meaning instructions value ↔
      ∀ before instruction after, instructions = before ++ instruction :: after →
        ∀ divisor ∈ instruction.divisor?, executeAll meaning before value divisor ≠ 0 := by
  induction instructions generalizing value with
  | nil => simp [NonzeroDivisors]
  | cons first instructions ih =>
      rw [NonzeroDivisors, ih]
      constructor
      · rintro ⟨here, later⟩ before instruction after split
        rcases List.cons_eq_append_iff.mp split with ⟨rfl, same⟩ | ⟨rest, rfl, restSplit⟩
        · cases same
          exact here
        · exact later rest instruction after restSplit
      · intro all
        refine ⟨all [] first instructions rfl, fun before instruction after split => ?_⟩
        exact all (first :: before) instruction after (by rw [split, List.cons_append])

section Dual

variable {K : Type} [CommRing K]

def dual (value tangent : K) : DualNumber K :=
  inl value + tangent • DualNumber.eps

@[simp] theorem fst_dual (value tangent : K) : (dual value tangent).fst = value := by
  simp [dual]

@[simp] theorem snd_dual (value tangent : K) : (dual value tangent).snd = tangent := by
  simp [dual]

theorem dual_add (value tangent value' tangent' : K) :
    dual value tangent + dual value' tangent' = dual (value + value') (tangent + tangent') := by
  ext <;> simp

/-- If the result of an instruction is the dual number of its value and its tangent, then so are the slots
after the instruction. -/
theorem Instruction.execute_dual {meaning : Meaning K} {duals : Meaning (DualNumber K)} {value tangents : Nat → K}
    {weights : K × K} (result : instruction.result duals (fun slot => dual (value slot) (tangents slot)) =
      dual (instruction.result meaning value)
        ((instruction.shares weights).map fun share => share.2 * tangents share.1).sum) :
    instruction.execute duals (fun slot => dual (value slot) (tangents slot)) =
      fun slot => dual (instruction.execute meaning value slot)
        (instruction.pushed weights tangents slot) := by
  funext slot
  rw [execute, result, execute, pushed]
  by_cases isOut : slot = instruction.out
  · subst isOut
    simp only [Function.update_self]
  · simp only [Function.update_of_ne isOut]

end Dual

attribute [-instance] Scalar.toAdd Scalar.toSub Scalar.toMul Scalar.toDiv Scalar.toNeg

variable {K : Type} [Field K] {scalar : Scalar K} {duals : Scalar (DualNumber K)}

/-- Exact scalars over a field and over its dual numbers, with the same literals. -/
structure Scalar.Lifts (scalar : Scalar K) (duals : Scalar (DualNumber K)) : Prop where
  exact : scalar.Exact
  dualExact : duals.Exact
  literal : ∀ literal, duals.ofLiteral literal = inl (scalar.ofLiteral literal)

/-- Every field and its dual numbers have exact scalars with the same literals. -/
theorem Scalar.lifts_ofRing (literal : Float → K) :
    (Scalar.ofRing (fun left right => left * right⁻¹) literal).Lifts
      (Scalar.ofRing (fun left right => left * right⁻¹) fun float => inl (literal float)) where
  exact := by
    refine Scalar.exact_ofRing (fun left right unit => ?_) literal
    rw [mul_assoc, inv_mul_cancel₀ unit.ne_zero, mul_one]
  dualExact := by
    refine Scalar.exact_ofRing (fun left right unit => ?_) _
    have nonzero := (isUnit_iff_isUnit_fst.mp unit).ne_zero
    rw [mul_assoc, TrivSqZeroExt.inv_mul_cancel nonzero, mul_one]
  literal _ := rfl

namespace Scalar.Lifts

/-! ## One operation -/

theorem div_eq (lifts : scalar.Lifts duals) {dividend divisor quotient : DualNumber K}
    (nonzero : divisor.fst ≠ 0) (product : quotient * divisor = dividend) :
    duals.div dividend divisor = quotient := by
  have unit : IsUnit divisor := isUnit_iff_isUnit_fst.mpr (isUnit_iff_ne_zero.mpr nonzero)
  exact unit.mul_right_cancel ((lifts.dualExact.div dividend divisor unit).trans product.symm)

theorem unary (lifts : scalar.Lifts duals) {op : UnaryOp} (rational : (Opcode.unary op).isRational)
    {value : K} (nonzero : op = .recip → value ≠ 0) (tangent : K) :
    op.apply (dual value tangent) =
      dual (op.apply value) (op.derivative value (op.apply value) * tangent) := by
  have exact := lifts.exact
  have dualExact := lifts.dualExact
  cases op with
  | neg =>
      change duals.neg _ = dual (scalar.neg value) (scalar.neg scalar.one * tangent)
      rw [dualExact.neg, exact.neg, exact.neg, exact.one]
      ext <;> simp
  | sq =>
      change duals.mul _ _ =
        dual (scalar.mul value value) (scalar.mul (scalar.add scalar.one scalar.one) value * tangent)
      rw [dualExact.mul, exact.mul, exact.mul, exact.add, exact.one]
      ext
      · simp
      · simp
        ring
  | recip =>
      change duals.div duals.one _ = dual (scalar.div scalar.one value)
        (scalar.mul (scalar.neg (scalar.div scalar.one value)) (scalar.div scalar.one value) * tangent)
      rw [dualExact.one, exact.one, exact.mul, exact.neg]
      have inverse := exact.div 1 value (isUnit_iff_ne_zero.mpr (nonzero rfl))
      refine lifts.div_eq (by simpa using nonzero rfl) ?_
      ext
      · simpa using inverse
      · simp
        linear_combination -(scalar.div 1 value * tangent) * inverse
  | _ => cases rational

theorem binary (lifts : scalar.Lifts duals) {op : BinaryOp}
    (rational : (Opcode.binary op).isRational) {left right : K} (nonzero : op = .div → right ≠ 0)
    (leftTangent rightTangent : K) :
    op.apply (dual left leftTangent) (dual right rightTangent) =
      dual (op.apply left right)
        ((op.derivatives left right (op.apply left right)).1 * leftTangent +
          (op.derivatives left right (op.apply left right)).2 * rightTangent) := by
  have exact := lifts.exact
  have dualExact := lifts.dualExact
  cases op with
  | add =>
      change duals.add _ _ = dual (scalar.add left right)
        (scalar.one * leftTangent + scalar.one * rightTangent)
      rw [dualExact.add, exact.add, exact.one, one_mul, one_mul, dual_add]
  | sub =>
      change duals.sub _ _ = dual (scalar.sub left right)
        (scalar.one * leftTangent + scalar.neg scalar.one * rightTangent)
      rw [dualExact.sub, exact.sub, exact.neg, exact.one]
      ext
      · simp
      · simp
        ring
  | mul =>
      change duals.mul _ _ = dual (scalar.mul left right) (right * leftTangent + left * rightTangent)
      rw [dualExact.mul, exact.mul]
      ext
      · simp
      · simp
        ring
  | div =>
      change duals.div _ _ = dual (scalar.div left right)
        (scalar.div scalar.one right * leftTangent +
          scalar.mul (scalar.mul (scalar.neg left) (scalar.div scalar.one right))
            (scalar.div scalar.one right) * rightTangent)
      rw [exact.one, exact.mul, exact.mul, exact.neg]
      have unit := isUnit_iff_ne_zero.mpr (nonzero rfl)
      have quotient := exact.div left right unit
      have inverse := exact.div 1 right unit
      refine lifts.div_eq (by simpa using nonzero rfl) ?_
      ext
      · simpa using quotient
      · simp
        linear_combination (leftTangent - rightTangent * left * scalar.div 1 right -
          rightTangent * scalar.div left right) * inverse +
            rightTangent * scalar.div 1 right * quotient
  | _ => cases rational

/-! ## Instructions -/

/-- One instruction: over dual numbers it computes the value and the tangent of its result. -/
theorem result (lifts : scalar.Lifts duals) (rational : instruction.op.isRational) {value : Nat → K}
    (nonzero : ∀ divisor ∈ instruction.divisor?, value divisor ≠ 0) (tangents : Nat → K) :
    instruction.result duals.meaning (fun slot => dual (value slot) (tangents slot)) =
      dual (instruction.result scalar.meaning value)
        ((instruction.shares (instruction.weights scalar value)).map
          fun share => share.2 * tangents share.1).sum := by
  rcases instruction with ⟨_ | op | op, out, fst, snd, literal⟩
  · change duals.ofLiteral literal = dual (scalar.ofLiteral literal) 0
    rw [lifts.literal, dual, zero_smul, add_zero]
  · refine (lifts.unary rational (fun isRecip => ?_) (tangents fst)).trans ?_
    · subst isRecip
      exact nonzero fst rfl
    · simp [Instruction.result, Instruction.shares, Instruction.weights, Opcode.partials, meaning]
  · refine (lifts.binary rational (fun isDiv => ?_) (tangents fst) (tangents snd)).trans ?_
    · subst isDiv
      exact nonzero snd rfl
    · simp [Instruction.result, Instruction.shares, Instruction.weights, Opcode.partials, meaning]

/-- A run: the recording sweep computes the values of the run over dual numbers, and the record pushes
forward their derivatives. -/
theorem run (lifts : scalar.Lifts duals) (policy : DomainPolicy) {size : Nat}
    (below : ∀ instruction ∈ instructions, instruction.Below size)
    (rational : ∀ instruction ∈ instructions, instruction.op.isRational) {value : Nat → K}
    (nonzero : NonzeroDivisors scalar.meaning instructions value) (start : Nat) (before : Record K) :
    ∃ record : Record K,
      (instructions.zipIdx start).foldlM (recordStep (numbers policy))
        (slotArray size value, before) =
          .ok (slotArray size (executeAll scalar.meaning instructions value), record) ∧
      ∀ tangents : Nat → K,
        executeAll duals.meaning instructions
            (fun slot => dual (value slot) (before.pushed tangents slot)) =
          fun slot => dual (executeAll scalar.meaning instructions value slot)
            (record.pushed tangents slot) := by
  -- The record so far stands for the derivative parts that the slots hold so far.
  induction instructions generalizing value start before with
  | nil => exact ⟨before, rfl, fun _ => rfl⟩
  | cons instruction instructions ih =>
      rw [List.forall_mem_cons] at below rational
      rcases ih below.2 rational.2 nonzero.2 (start + 1)
        ((instruction, instruction.weights scalar value) :: before) with ⟨record, recorded, lifted⟩
      refine ⟨record, ?_, fun tangents => ?_⟩
      · rw [List.zipIdx_cons, List.foldlM_cons,
          recordStep_numbers lifts.exact.isFinite policy below.1, ok_bind, recorded]
        rfl
      · rw [executeAll, List.foldl_cons, Instruction.execute_dual (lifts.result rational.1 nonzero.1 _)]
        exact lifted tangents

end Scalar.Lifts

end Autodiff
