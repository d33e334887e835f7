import Autodiff.Proofs.Lowering.Correctness
import Autodiff.Proofs.Lowering.Success
import Autodiff.Proofs.Symbolic.Assembly
import Autodiff.Proofs.Tape.Polynomials

/-!
# Polynomial expressions

Expressions over given symbols that only add, subtract, multiply, negate and square denote polynomials. In every
commutative ring in which a few literals mean what they say, the identities of the simplifier hold for them, and
their derivative expressions denote their derivatives. What is folded exactly in a ring is folded exactly in its
dual numbers.
-/

namespace Autodiff

open TrivSqZeroExt

variable {R : Type} [CommRing R] {literal : Float → R} {inputs : List Handle} {point : Seed R}

/-- The literals that derivatives of polynomials contain mean what they say. -/
structure Numerals (literal : Float → R) : Prop where
  zero : literal 0 = 0
  negZero : literal (-0) = 0
  one : literal 1 = 1
  negOne : literal (-1) = -1
  two : literal 2 = 2

theorem Numerals.inl (numerals : Numerals literal) :
    Numerals fun number => (TrivSqZeroExt.inl (literal number) : DualNumber R) where
  zero := by rw [numerals.zero, inl_zero]
  negZero := by rw [numerals.negZero, inl_zero]
  one := by rw [numerals.one, inl_one]
  negOne := by rw [numerals.negOne, inl_neg, inl_one]
  two := by
    rw [numerals.two]
    exact map_ofNat (inlHom R R) 2

/-- The polynomial operations of a ring obey the zero rules. -/
def Interpretation.ofRing (literal : Float → R) (isZero : literal 0 = 0) : Interpretation R where
  toMeaning := .ofRing literal
  literal_zero := isZero
  commutes op commutative left right := by
    cases op with
    | add => exact add_comm left right
    | mul => exact mul_comm left right
    | _ => first | rfl | cases commutative
  preserves op _ := by cases op <;> simp [Meaning.ofRing]
  zeroRule op := by cases op <;> simp [BinaryOp.zeroRule, ZeroRule.Holds, Meaning.ofRing]

def Vocabulary.polynomial (inputs : List Handle) : Vocabulary :=
  ⟨(· ∈ inputs), fun op => (Opcode.unary op).isPolynomial, fun op => (Opcode.binary op).isPolynomial⟩

theorem Vocabulary.allowsOp_polynomial {op : Opcode} :
    (polynomial inputs).AllowsOp op ↔ op.isPolynomial := by
  cases op <;> simp [AllowsOp, polynomial, Opcode.isPolynomial]

/-- Polynomial expressions as elements of a ring, given the stored entries of the symbols. -/
def Reading.ofRing (literal : Float → R) (inputs : List Handle) (point : Seed R) : Reading R :=
  ⟨.ofRing literal, Graph.assignment inputs point, .polynomial inputs⟩

namespace Numerals

theorem linear (numerals : Numerals literal) (inputs : List Handle) (point : Seed R) :
    (Reading.ofRing literal inputs point).Linear where
  literal_zero := numerals.zero
  literal_negZero := numerals.negZero
  commutes op _ commutative := (Interpretation.ofRing literal numerals.zero).commutes op commutative
  neg_neg _ := neg_neg
  zero_add _ := zero_add
  add_zero _ := add_zero
  sub_zero _ := sub_zero
  zero_sub _ := zero_sub
  zero_mul _ := zero_mul
  mul_zero _ := mul_zero
  one_mul _ element := by
    simp [Reading.ofRing, Meaning.ofRing, numerals.one]
  mul_one _ element := by
    simp [Reading.ofRing, Meaning.ofRing, numerals.one]
  negOne_mul _ element := by
    simp [Reading.ofRing, Meaning.ofRing, numerals.negOne]
  mul_negOne _ element := by
    simp [Reading.ofRing, Meaning.ofRing, numerals.negOne]
  div_one := nofun
  zero_div := nofun
  neg_of_sub _ := rfl
  neg_of_mul _ := rfl
  allowsAdd := rfl
  allowsMul := rfl
  add_eq _ _ := rfl
  mul_eq _ _ := rfl

theorem derives (numerals : Numerals literal) (inputs : List Handle) (point : Seed R) :
    (Reading.ofRing literal inputs point).Derives (polynomialRules R) where
  unary world op operand result element allowed operandDenotes _ := by
    cases op with
    | neg =>
        apply (Reading.completes_constant (Reading.ofRing literal inputs point) (-1)).mono
        intro later minusOne _ denotes
        exact denotes.congr fun _ => numerals.negOne
    | sq =>
        have twoDenotes : (Reading.ofRing literal inputs point).Denotes world .two 2 :=
          numerals.two ▸ Reading.denotes_two world
        exact (numerals.linear inputs point).completes_mul twoDenotes operandDenotes
    | _ => cases allowed
  binary world op lhs rhs result left right allowed leftDenotes rightDenotes _ := by
    have oneDenotes : ∀ later, (Reading.ofRing literal inputs point).Denotes later .one 1 :=
      fun later => numerals.one ▸ Reading.denotes_one later
    cases op with
    | add => exact .pure ⟨oneDenotes world, oneDenotes world⟩
    | sub =>
        apply (Reading.completes_constant (Reading.ofRing literal inputs point) (-1)).bind
        intro later minusOne _ minusOneDenotes
        exact .pure ⟨oneDenotes later, minusOneDenotes.congr fun _ => numerals.negOne⟩
    | mul => exact .pure ⟨rightDenotes, leftDenotes⟩
    | _ => cases allowed

end Numerals

/-! ## Foldings -/

theorem Meaning.folds_inl {folding : Folding} (folds : (Meaning.ofRing literal).Folds folding) :
    (Meaning.ofRing fun number => (inl (literal number) : DualNumber R)).Folds folding := by
  rcases folding with ⟨_ | op | op, left, right⟩
  · trivial
  · have lifted := congrArg (inl : R → DualNumber R) folds
    cases op <;> simpa [Folds, ofRing] using lifted
  · have lifted := congrArg (inl : R → DualNumber R) folds
    cases op <;> simpa [Folds, ofRing] using lifted

theorem Reading.Exact.inl {world : World} (exact : (Reading.ofRing literal inputs point).Exact world)
    (dualPoint : Seed (DualNumber R)) :
    (Reading.ofRing (fun number => TrivSqZeroExt.inl (literal number)) inputs dualPoint).Exact world :=
  fun folding member allowed => Meaning.folds_inl (exact folding member allowed)

attribute [-instance] Scalar.toAdd Scalar.toSub Scalar.toMul Scalar.toDiv Scalar.toNeg

theorem Scalar.Exact.folds {scalar : Scalar R} (exact : scalar.Exact) {folding : Folding}
    (polynomial : folding.op.isPolynomial) (folds : scalar.meaning.Folds folding) :
    (Meaning.ofRing scalar.ofLiteral).Folds folding := by
  rcases folding with ⟨_ | op | op, left, right⟩
  · trivial
  · exact Eq.trans folds (exact.unary_eq polynomial _)
  · exact Eq.trans folds (exact.binary_eq polynomial _ _)

/-! ## Symbols -/

namespace Graph

variable {graph : Graph}

theorem IsSymbol.grow {before after : Graph} {handle : Handle} (isSymbol : before.IsSymbol handle)
    (grows : before.Extends after) : after.IsSymbol handle := by
  rcases isSymbol with ⟨entry, found, isSymbol⟩
  rcases grows ⟨entry, found, rfl, rfl⟩ with ⟨later, laterFound, sameNode, _⟩
  exact ⟨later, laterFound, sameNode ▸ isSymbol⟩

theorem IsSymbol.spelled {handle : Handle} (isSymbol : graph.IsSymbol handle) {vocabulary : Vocabulary}
    (allowed : vocabulary.symbol handle) : graph.Spelled vocabulary handle := by
  rcases isSymbol with ⟨⟨node, pattern, references⟩, found, isSymbol⟩
  refine .intro ⟨_, found, rfl, rfl⟩ ?_ ?_
  all_goals cases node <;> simp_all [Node.isSymbol, Node.operands, Vocabulary.Allows]

theorem WellFormed.storedValues_symbols {K : Type} [Zero K] (wellFormed : graph.WellFormed)
    (symbols : ∀ input ∈ inputs, graph.IsSymbol input) (distinct : inputs.Nodup) {point : Seed K}
    (fits : List.Forall₂ graph.Fits inputs point) (meaning : Meaning K) :
    inputs.map (graph.storedValues meaning (assignment inputs point)) = point := by
  rw [← List.forall₂_eq_eq_eq, List.forall₂_map_left_iff, List.forall₂_iff_zip]
  refine ⟨fits.length_eq, fun {input entries} member => ?_⟩
  rcases (List.forall₂_iff_zip.mp fits).2 member with ⟨pattern, known, length⟩
  rcases symbols input (List.of_mem_zip member).1 with ⟨entry, found, isSymbol⟩
  rcases pattern_eq_ok.mp known with ⟨other, isOther, rfl⟩
  cases Option.some.inj (found.symm.trans isOther)
  have holds := (wellFormed found).wellFormed.scatter_holds length
  rw [storedValues_eq known, wellFormed.denote_symbol meaning _ found isSymbol,
    assignment_eq distinct member, ← List.forall₂_eq_eq_eq, List.forall₂_map_left_iff]
  exact holds

end Graph

end Autodiff
