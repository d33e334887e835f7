import Autodiff.Proofs.Tape.Execution
import Autodiff.Proofs.Tape.LinearSweeps
import Autodiff.Session.Basic

/-!
# Exact scalars

The rules of the opcodes make every scalar type a meaning, and sweeps over numbers execute it where every
result is accepted; a policy that rejects some results changes no other one (`primal_propagate`). If all elements
are finite they do so, and record its partials, whatever the policy. Scalars are exact if their arithmetic is that
of a commutative ring and division by units is division; the rules of the rational opcodes then are the textbook
formulas, and nothing is assumed of the elementary functions.
-/

namespace Autodiff

section Rules

variable {α : Type} (scalar : Scalar α)

def Scalar.meaning : Meaning α :=
  ⟨Scalar.ofLiteral, UnaryOp.apply, BinaryOp.apply⟩

def Instruction.weights (instruction : Instruction) (value : Nat → α) : α × α :=
  instruction.op.partials (value instruction.fst) (value instruction.snd)
    (instruction.result scalar.meaning value)

def Scalar.arithmetic : Arithmetic α :=
  ⟨scalar.zero, scalar.add, scalar.mul, fun element => scalar.same element scalar.zero⟩

variable {scalar} (finite : ∀ element, scalar.isFinite element = true) (policy : DomainPolicy)
include finite

theorem numbers_interprets : (numbers policy).Interprets scalar.meaning where
  constant _ := rfl
  unary _ _ _ := rfl
  binary _ _ _ := rfl
  admissible op left right result := by
    cases policy with
    | propagate => rfl
    | reject => simp [numbers, Opcode.leavesDomain, finite]

theorem recordStep_numbers {size : Nat} {instruction : Instruction} (below : instruction.Below size)
    (index : Nat) (value : Nat → α) (record : Record α) :
    recordStep (numbers policy) (slotArray size value, record) (instruction, index) =
      .ok (slotArray size (instruction.execute scalar.meaning value),
        (instruction, instruction.weights scalar value) :: record) := by
  have executed := (numbers_interprets finite policy).evaluates.step value below.operands index
  have weighted : instruction.stepPartials (numbers policy)
      (instruction.executed scalar.meaning (numbers policy : Algebra (Except Error) α).zero value) =
        .ok (instruction.weights scalar value) := by
    rcases instruction with ⟨_ | op | op, out, fst, snd, literal⟩ <;> rfl
  simp only [recordStep, executed, weighted, ok_bind, writeSlot_slotArray below.out,
    Instruction.result_executed]
  rfl

end Rules

theorem numbers_computes (α : Type) [scalar : Scalar α] (policy : DomainPolicy) :
    (numbers policy).Computes scalar.arithmetic where
  zero := rfl
  add _ _ := rfl
  mul _ _ := rfl
  isZero _ := rfl
  partials _ _ _ _ := ⟨_, rfl⟩

theorem numbers_evaluates (α : Type) [scalar : Scalar α] :
    (numbers .propagate).Evaluates scalar.meaning where
  constant _ := rfl
  unary _ _ := rfl
  binary _ _ _ := rfl
  admissible _ _ _ _ := rfl

theorem step_propagate {α : Type} [Scalar α] {policy : DomainPolicy} {instruction : Instruction} {index : Nat}
    {work : Array α} {step : Step α} (ran : instruction.step (numbers policy) index work = .ok step) :
    instruction.step (numbers .propagate) index work = .ok step := by
  rcases bind_eq_ok.mp ran with ⟨operands, loaded, ran⟩
  refine bind_eq_ok.mpr ⟨operands, loaded, ?_⟩
  cases isOp : instruction.op with
  | const =>
      simp only [isOp] at ran ⊢
      exact ran
  | unary op | binary op =>
      simp only [isOp] at ran ⊢
      rcases bind_eq_ok.mp ran with ⟨result, applied, ran⟩
      refine bind_eq_ok.mpr ⟨result, applied, ?_⟩
      split at ran
      · exact ran
      · cases ran

theorem primal_propagate {α : Type} [Scalar α] {policy : DomainPolicy} {instructions : List Instruction}
    {start : Nat} {work final : Array α}
    (ran : (instructions.zipIdx start).foldlM (primalStep (numbers policy)) work = .ok final) :
    (instructions.zipIdx start).foldlM (primalStep (numbers .propagate)) work = .ok final := by
  induction instructions generalizing start work with
  | nil => exact ran
  | cons instruction instructions ih =>
      rw [List.zipIdx_cons, List.foldlM_cons, bind_eq_ok] at ran ⊢
      rcases ran with ⟨between, stepped, ran⟩
      rcases bind_eq_ok.mp stepped with ⟨step, executed, written⟩
      exact ⟨between, bind_eq_ok.mpr ⟨step, step_propagate executed, written⟩, ih ran⟩

/-! ## Arithmetic in a ring -/

section Ring

-- Where a type is a ring and a scalar type, the symbols of arithmetic mean the ring.
attribute [-instance] Scalar.toAdd Scalar.toSub Scalar.toMul Scalar.toDiv Scalar.toNeg

variable {R : Type} [CommRing R]

/-- Scalars that compute in a ring. Every element is finite, and dividing by a unit is exact; what
dividing by other elements and the elementary functions give is left open. -/
structure Scalar.Exact (scalar : Scalar R) : Prop where
  zero : scalar.zero = 0
  one : scalar.one = 1
  add : ∀ left right, scalar.add left right = left + right
  sub : ∀ left right, scalar.sub left right = left - right
  mul : ∀ left right, scalar.mul left right = left * right
  neg : ∀ element, scalar.neg element = -element
  div : ∀ left right, IsUnit right → scalar.div left right * right = left
  same : ∀ left right, scalar.same left right = true ↔ left = right
  isFinite : ∀ element, scalar.isFinite element = true

theorem Scalar.Exact.numbers {scalar : Scalar R} (exact : scalar.Exact) (policy : DomainPolicy) :
    (Autodiff.numbers policy : Algebra (Except Error) R).Exact where
  zero := exact.zero
  add left right := congrArg Except.ok (exact.add left right)
  mul left right := congrArg Except.ok (exact.mul left right)
  isZero element := ⟨scalar.same element scalar.zero, rfl, by rw [exact.same, exact.zero]⟩
  partials _ _ _ _ := ⟨_, rfl⟩

open Classical in
/-- Exact scalars over a ring with a given division and given literals; the elementary functions are
zero. -/
noncomputable abbrev Scalar.ofRing (divide : R → R → R) (literal : Float → R) : Scalar R where
  add left right := left + right
  sub left right := left - right
  mul left right := left * right
  div := divide
  neg element := -element
  zero := 0
  one := 1
  pow _ _ := 0
  atan2 _ _ := 0
  hypot _ _ := 0
  sqrt _ := 0
  cbrt _ := 0
  exp _ := 0
  expM1 _ := 0
  ln _ := 0
  ln1p _ := 0
  sin _ := 0
  cos _ := 0
  tan _ := 0
  asin _ := 0
  acos _ := 0
  atan _ := 0
  sinh _ := 0
  cosh _ := 0
  tanh _ := 0
  asinh _ := 0
  acosh _ := 0
  atanh _ := 0
  abs _ := 0
  floor _ := 0
  ceil _ := 0
  round _ := 0
  trunc _ := 0
  less _ _ := false
  same left right := decide (left = right)
  isNan _ := false
  isFinite _ := true
  ofLiteral := literal

open Classical in
theorem Scalar.exact_ofRing {divide : R → R → R}
    (division : ∀ left right, IsUnit right → divide left right * right = left)
    (literal : Float → R) : (Scalar.ofRing divide literal).Exact where
  zero := rfl
  one := rfl
  add _ _ := rfl
  sub _ _ := rfl
  mul _ _ := rfl
  neg _ := rfl
  div := division
  same _ _ := decide_eq_true_iff
  isFinite _ := rfl

end Ring

end Autodiff
