import Autodiff.Proofs.Tape.DualNumbers

/-!
# Polynomial tapes

Tapes that only add, subtract, multiply, negate and square compute polynomials, so they can be executed over
every commutative ring. Ring homomorphisms carry executions to executions (`executeAll_hom`). Over the dual
numbers an execution computes derivatives (`executeAll_dual`), and nothing is assumed of the point.
-/

namespace Autodiff

open TrivSqZeroExt

def Opcode.isPolynomial : Opcode → Bool
  | .const | .unary .neg | .unary .sq | .binary .add | .binary .sub | .binary .mul => true
  | _ => false

variable {R S : Type} [CommRing R] [CommRing S]

/-- The polynomial operations of a ring with given literals; all other operations are zero. -/
def Meaning.ofRing (literal : Float → R) : Meaning R where
  literal := literal
  unary
    | .neg, element => -element
    | .sq, element => element * element
    | _, _ => 0
  binary
    | .add, left, right => left + right
    | .sub, left, right => left - right
    | .mul, left, right => left * right
    | _, _, _ => 0

/-- The derivatives of the polynomial operations; all others are zero. -/
def polynomialRules (R : Type) [CommRing R] : DerivativeRules R where
  unary
    | .neg, _, _ => -1
    | .sq, element, _ => 2 * element
    | _, _, _ => 0
  binary
    | .add, _, _, _ => (1, 1)
    | .sub, _, _, _ => (1, -1)
    | .mul, left, right, _ => (right, left)
    | _, _, _, _ => (0, 0)

/-! ## Homomorphisms -/

theorem Instruction.result_hom (hom : R →+* S) (literal : Float → R) (instruction : Instruction)
    (value : Nat → R) :
    instruction.result (.ofRing fun number => hom (literal number)) (fun slot => hom (value slot)) =
      hom (instruction.result (.ofRing literal) value) := by
  rcases instruction with ⟨_ | op | op, out, fst, snd, number⟩
  · rfl
  · cases op <;> simp [result, Meaning.ofRing]
  · cases op <;> simp [result, Meaning.ofRing]

theorem executeAll_hom (hom : R →+* S) (literal : Float → R) (instructions : List Instruction)
    (value : Nat → R) :
    executeAll (.ofRing fun number => hom (literal number)) instructions (fun slot => hom (value slot)) =
      fun slot => hom (executeAll (.ofRing literal) instructions value slot) := by
  induction instructions generalizing value with
  | nil => rfl
  | cons instruction instructions ih =>
      have executed : instruction.execute (.ofRing fun number => hom (literal number))
          (fun slot => hom (value slot)) =
            fun slot => hom (instruction.execute (.ofRing literal) value slot) := by
        rw [Instruction.execute, Instruction.result_hom]
        exact (Function.comp_update hom value _ _).symm
      rw [executeAll, List.foldl_cons, executed]
      exact ih _

/-! ## Derivatives -/

theorem Instruction.result_dual (literal : Float → R) (instruction : Instruction)
    (value tangents : Nat → R) :
    instruction.result (.ofRing fun number => inl (literal number))
        (fun slot => dual (value slot) (tangents slot)) =
      dual (instruction.result (.ofRing literal) value)
        ((instruction.shares (instruction.weighted (polynomialRules R) (.ofRing literal) value)).map
          fun share => share.2 * tangents share.1).sum := by
  rcases instruction with ⟨_ | op | op, out, fst, snd, number⟩
  · ext <;> simp [result, shares, Meaning.ofRing]
  · cases op <;> ext <;> simp [result, shares, weighted, Meaning.ofRing, polynomialRules]
    ring
  · cases op <;> ext <;> simp [result, shares, weighted, Meaning.ofRing, polynomialRules]
    all_goals ring

theorem executeAll_dual (literal : Float → R) (instructions : List Instruction) (value tangents : Nat → R)
    (before : Record R) :
    executeAll (.ofRing fun number => inl (literal number)) instructions
        (fun slot => dual (value slot) (before.pushed tangents slot)) =
      fun slot => dual (executeAll (.ofRing literal) instructions value slot)
        ((recordAll (polynomialRules R) (.ofRing literal) instructions value before).pushed
          tangents slot) := by
  -- The record so far stands for the derivative parts that the slots hold so far.
  induction instructions generalizing value before with
  | nil => rfl
  | cons instruction instructions ih =>
      rw [executeAll, List.foldl_cons,
        Instruction.execute_dual (Instruction.result_dual literal instruction value _)]
      exact ih _ ((instruction, _) :: before)

/-! ## Exact scalars -/

attribute [-instance] Scalar.toAdd Scalar.toSub Scalar.toMul Scalar.toDiv Scalar.toNeg

variable {scalar : Scalar R}

theorem Scalar.Exact.unary_eq (exact : scalar.Exact) {op : UnaryOp}
    (polynomial : (Opcode.unary op).isPolynomial) (element : R) :
    scalar.meaning.unary op element = (Meaning.ofRing scalar.ofLiteral).unary op element := by
  cases op with
  | neg => exact exact.neg element
  | sq => exact exact.mul element element
  | _ => cases polynomial

theorem Scalar.Exact.binary_eq (exact : scalar.Exact) {op : BinaryOp}
    (polynomial : (Opcode.binary op).isPolynomial) (left right : R) :
    scalar.meaning.binary op left right = (Meaning.ofRing scalar.ofLiteral).binary op left right := by
  cases op with
  | add => exact exact.add left right
  | sub => exact exact.sub left right
  | mul => exact exact.mul left right
  | _ => cases polynomial

theorem Scalar.Exact.result_eq (exact : scalar.Exact) {instruction : Instruction}
    (polynomial : instruction.op.isPolynomial) (value : Nat → R) :
    instruction.result scalar.meaning value = instruction.result (.ofRing scalar.ofLiteral) value := by
  rcases instruction with ⟨_ | op | op, out, fst, snd, number⟩
  · rfl
  · exact exact.unary_eq polynomial (value fst)
  · exact exact.binary_eq polynomial (value fst) (value snd)

theorem Scalar.Exact.executeAll_eq (exact : scalar.Exact) {instructions : List Instruction}
    (polynomial : ∀ instruction ∈ instructions, instruction.op.isPolynomial) (value : Nat → R) :
    executeAll scalar.meaning instructions value =
      executeAll (.ofRing scalar.ofLiteral) instructions value := by
  induction instructions generalizing value with
  | nil => rfl
  | cons instruction instructions ih =>
      rw [List.forall_mem_cons] at polynomial
      have executed : instruction.execute scalar.meaning value =
          instruction.execute (.ofRing scalar.ofLiteral) value := by
        rw [Instruction.execute, exact.result_eq polynomial.1, Instruction.execute]
      rw [executeAll, List.foldl_cons, executed]
      exact ih polynomial.2 _

end Autodiff
