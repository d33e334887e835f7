import Autodiff.Proofs.Scalar.Ordered
import Autodiff.Proofs.Session.Runs
import Autodiff.Proofs.Symbolic.Calls

/-!
# Symbolic evaluation is substitution

A tape evaluated on expressions gives expressions. Under every assignment of the symbols they have the values
that the tape computes from the values of the given expressions, for every meaning of the opcodes that
satisfies the identities of the simplifier and for which the literals that were folded are exact.
-/

namespace Autodiff

/-- The identities by which expressions are simplified. -/
structure Meaning.Simplifies {K : Type} [Zero K] (meaning : Meaning K) : Prop where
  literal_zero : meaning.literal 0 = 0
  /-- Negative zero compares equal to zero. -/
  literal_negZero : meaning.literal (-0) = 0
  commutes : ∀ op, op.isCommutative → ∀ left right,
    meaning.binary op left right = meaning.binary op right left
  zero_add : ∀ element, meaning.binary .add 0 element = element
  add_zero : ∀ element, meaning.binary .add element 0 = element
  sub_zero : ∀ element, meaning.binary .sub element 0 = element
  zero_sub : ∀ element, meaning.binary .sub 0 element = meaning.unary .neg element
  zero_mul : ∀ element, meaning.binary .mul 0 element = 0
  mul_zero : ∀ element, meaning.binary .mul element 0 = 0
  one_mul : ∀ element, meaning.binary .mul (meaning.literal 1) element = element
  mul_one : ∀ element, meaning.binary .mul element (meaning.literal 1) = element
  negOne_mul : ∀ element,
    meaning.binary .mul (meaning.literal (-1)) element = meaning.unary .neg element
  mul_negOne : ∀ element,
    meaning.binary .mul element (meaning.literal (-1)) = meaning.unary .neg element
  div_one : ∀ element, meaning.binary .div element (meaning.literal 1) = element
  zero_div : ∀ element, meaning.binary .div 0 element = 0
  neg_neg : ∀ element, meaning.unary .neg (meaning.unary .neg element) = element

attribute [-instance] Scalar.toAdd Scalar.toSub Scalar.toMul Scalar.toDiv Scalar.toNeg

/-- Numbers of an ordered field satisfy the identities. -/
theorem Scalar.Ordered.simplifies {K : Type} [Field K] [LinearOrder K] {scalar : Scalar K}
    (ordered : scalar.Ordered) : scalar.meaning.Simplifies where
  literal_zero := ordered.literal_zero
  literal_negZero := ordered.literal_negZero
  commutes op commutative left right := by
    cases op with
    | add => exact (ordered.add ..).trans ((add_comm ..).trans (ordered.add ..).symm)
    | mul => exact (ordered.mul ..).trans ((mul_comm ..).trans (ordered.mul ..).symm)
    | hypot => exact ordered.hypot_comm left right
    | fmin => exact (ordered.fmin_eq ..).trans ((min_comm ..).trans (ordered.fmin_eq ..).symm)
    | fmax => exact (ordered.fmax_eq ..).trans ((max_comm ..).trans (ordered.fmax_eq ..).symm)
    | _ => cases commutative
  zero_add element := (ordered.add ..).trans (zero_add element)
  add_zero element := (ordered.add ..).trans (add_zero element)
  sub_zero element := (ordered.sub ..).trans (sub_zero element)
  zero_sub element := (ordered.sub ..).trans ((zero_sub element).trans (ordered.neg ..).symm)
  zero_mul element := (ordered.mul ..).trans (zero_mul element)
  mul_zero element := (ordered.mul ..).trans (mul_zero element)
  one_mul element := (ordered.mul ..).trans (by simp [Scalar.meaning, ordered.literal_one])
  mul_one element := (ordered.mul ..).trans (by simp [Scalar.meaning, ordered.literal_one])
  negOne_mul element :=
    (ordered.mul ..).trans (Eq.trans (by simp [Scalar.meaning, ordered.literal_negOne]) (ordered.neg ..).symm)
  mul_negOne element :=
    (ordered.mul ..).trans (Eq.trans (by simp [Scalar.meaning, ordered.literal_negOne]) (ordered.neg ..).symm)
  div_one element := (ordered.quotient ..).trans (by simp [Scalar.meaning, ordered.literal_one])
  zero_div element := (ordered.quotient ..).trans (zero_div element)
  neg_neg element := by
    refine (ordered.neg ..).trans ?_
    exact (congrArg _ (ordered.neg element)).trans (neg_neg element)

variable {K : Type} [Zero K] {meaning : Meaning K}

theorem Meaning.Simplifies.lawful (simplifies : meaning.Simplifies) (assignment : Handle → List K) :
    Reading.Lawful ⟨meaning, assignment, .all⟩ where
  literal_zero := simplifies.literal_zero
  literal_negZero := simplifies.literal_negZero
  commutes op _ := simplifies.commutes op
  neg_neg _ := simplifies.neg_neg
  zero_add _ := simplifies.zero_add
  add_zero _ := simplifies.add_zero
  sub_zero _ := simplifies.sub_zero
  zero_sub _ := simplifies.zero_sub
  zero_mul _ := simplifies.zero_mul
  mul_zero _ := simplifies.mul_zero
  one_mul _ := simplifies.one_mul
  mul_one _ := simplifies.mul_one
  negOne_mul _ := simplifies.negOne_mul
  mul_negOne _ := simplifies.mul_negOne
  div_one _ := simplifies.div_one
  zero_div _ := simplifies.zero_div
  neg_of_sub _ := trivial
  neg_of_mul _ := trivial

namespace Graph

def Scalars (graph : Graph) (seed : Seed Handle) : Prop :=
  ∀ entries ∈ seed, ∀ handle ∈ entries, graph.pattern handle = .ok .scalar

def values (graph : Graph) (meaning : Meaning K) (assignment : Handle → List K)
    (seed : Seed Handle) : Seed K :=
  seed.map (List.map (graph.value meaning assignment))

theorem shaped_values (graph : Graph) {blocks : List Block} {seed : Seed Handle}
    (shaped : Session.Shaped blocks seed) (meaning : Meaning K) (assignment : Handle → List K) :
    Session.Shaped blocks (graph.values meaning assignment seed) := by
  simpa [Session.Shaped, values] using shaped

end Graph

namespace Reading

variable {world : World} {assignment : Handle → List K} {seed : Seed Handle} {entries : Seed K}

theorem denotes_value {handle : Handle} (isScalar : world.graph.pattern handle = .ok .scalar) :
    Denotes ⟨meaning, assignment, .all⟩ world handle
      (world.graph.value meaning assignment handle) :=
  ⟨isScalar, world.sound.wellFormed.spelled_all isScalar, fun _ => rfl⟩

theorem denotesSeed_values (scalars : world.graph.Scalars seed) :
    DenotesSeed ⟨meaning, assignment, .all⟩ world seed
      (world.graph.values meaning assignment seed) := by
  simp only [DenotesSeed, Graph.values, List.forall₂_map_right_iff, List.forall₂_same]
  intro entries entriesMem handle handleMem
  exact denotes_value (scalars entries entriesMem handle handleMem)

variable {reading : Reading K}

theorem DenotesSeed.scalars (denotes : reading.DenotesSeed world seed entries) :
    world.graph.Scalars seed := by
  intro handles handlesMem handle handleMem
  rcases exists_related denotes handlesMem with ⟨elements, _, related⟩
  rcases exists_related related handleMem with ⟨element, _, isDenoted⟩
  exact isDenoted.isScalar

theorem DenotesSeed.values_eq (denotes : reading.DenotesSeed world seed entries)
    (exact : reading.Exact world) :
    world.graph.values reading.meaning reading.assignment seed = entries := by
  have each : List.Forall₂ Eq (world.graph.values reading.meaning reading.assignment seed) entries := by
    rw [Graph.values, List.forall₂_map_left_iff]
    refine denotes.imp fun handles elements related => ?_
    rw [← List.forall₂_eq_eq_eq, List.forall₂_map_left_iff]
    exact related.imp fun _ _ isDenoted => isDenoted.value_eq exact
  rwa [List.forall₂_eq_eq_eq] at each

end Reading

/-- A call has one outcome, so what holds of it in each of many cases holds in all of them at once. -/
theorem GraphM.exists_run_forall {ι α : Type} [Nonempty ι] {call : GraphM α} {graph : Graph}
    {property : ι → α → Graph → Prop}
    (each : ∀ index, ∃ value after, call.run.run graph = (.ok value, after) ∧
      property index value after) :
    ∃ value after, call.run.run graph = (.ok value, after) ∧
      ∀ index, property index value after := by
  rcases each (Classical.arbitrary ι) with ⟨value, after, ran, _⟩
  refine ⟨value, after, ran, fun index => ?_⟩
  rcases each index with ⟨other, otherAfter, otherRan, holds⟩
  cases ran.symm.trans otherRan
  exact holds

omit [Zero K] in
/-- Whether everything is exact after a call that completes can be read off its foldings. -/
theorem Completes.exists_run {α : Type} {graph : Graph} {sound : graph.Sound} {traced : TracedM α}
    {plain : GraphM α} {property : World → α → Prop}
    (completes : Completes ⟨⟨graph, []⟩, sound⟩ traced plain property) (reading : Reading K) :
    ∃ (value : α) (final : World), plain.run.run graph = (.ok value, final.graph) ∧
      ((∀ folding ∈ traced.foldings graph, reading.meaning.Folds folding) → reading.Exact final) ∧
      property final value := by
  rcases completes with ⟨value, final, tracedRan, plainRan, grows, holds⟩
  refine ⟨value, final, plainRan, fun exactFoldings => ?_, holds⟩
  rw [TracedM.foldings, tracedRan] at exactFoldings
  exact fun folding member _ => exactFoldings folding member

theorem Vocabulary.allowsOp_all (op : Opcode) : Vocabulary.all.AllowsOp op := by
  cases op <;> trivial

theorem Meaning.Simplifies.exists_evalSymbolic {tape : Tape} (simplifies : meaning.Simplifies)
    (bounded : tape.Bounded) {graph : Graph} (sound : graph.Sound) {inputs : Seed Handle}
    (shaped : Session.Shaped tape.inputs inputs) (scalars : graph.Scalars inputs)
    (assignment : Handle → List K) :
    ∃ (outputs : Seed Handle) (final : World),
      (tape.evalSymbolic inputs : GraphM _).run.run graph = (.ok outputs, final.graph) ∧
      ((∀ folding ∈ TracedM.foldings (tape.evalSymbolic inputs) graph, meaning.Folds folding) →
        Reading.Exact ⟨meaning, assignment, .all⟩ final) ∧
      Reading.DenotesSeed ⟨meaning, assignment, .all⟩ final outputs
        (Seed.ofVector tape.outputs fun output => executeAll meaning tape.instructions
          (stored 0 tape.inputs (graph.values meaning assignment inputs)) output.slot) := by
  let start : World := ⟨⟨graph, []⟩, sound⟩
  have inputsDenote : Reading.DenotesSeed ⟨meaning, assignment, .all⟩ start inputs
      (graph.values meaning assignment inputs) := Reading.denotesSeed_values scalars
  exact (Reading.completes_evalSymbolic (simplifies.lawful assignment) bounded
    (fun instruction _ => Vocabulary.allowsOp_all instruction.op) shaped inputsDenote).exists_run
      ⟨meaning, assignment, .all⟩

/-- Symbolic evaluation is substitution. On stored 1x1 expressions of a reachable graph a valid tape evaluates
to stored 1x1 expressions. Under every assignment of the symbols they have the values that a session computes
from the values of the inputs, for every meaning that satisfies the identities of the simplifier, provided
that the foldings of this call are exact. -/
theorem Tape.evalSymbolic_substitutes {tape : Tape} (checked : tape.validate = .ok ()) {graph : Graph}
    (reachable : graph.Reachable) {inputs : Seed Handle} (shaped : Session.Shaped tape.inputs inputs)
    (scalars : graph.Scalars inputs) :
    ∃ (outputs : Seed Handle) (after : Graph),
      (tape.evalSymbolic inputs : GraphM _).run.run graph = (.ok outputs, after) ∧
      after.Scalars outputs ∧
      ∀ {K : Type} [Zero K] {meaning : Meaning K}, meaning.Simplifies →
        (∀ folding ∈ TracedM.foldings (tape.evalSymbolic inputs) graph, meaning.Folds folding) →
        ∀ (assignment : Handle → List K) (algebra : Algebra (Except Error) K),
          algebra.Evaluates meaning →
          ∀ (options : EvalOptions) (one : K) (work : Vector K tape.numSlots),
            ((Session.holding tape options algebra one work).perform
              (Session.evaluate (graph.values meaning assignment inputs))).1 =
              .ok (after.values meaning assignment outputs) := by
  have valid := Tape.valid_of_validate checked
  -- The run does not depend on a meaning: any reading shows that it succeeds.
  let blind : Meaning Unit := ⟨fun _ => (), fun _ _ => (), fun _ _ _ => ()⟩
  have blindSimplifies : blind.Simplifies := by constructor <;> intros <;> rfl
  rcases blindSimplifies.exists_evalSymbolic valid.bounded reachable.sound shaped scalars
    (fun _ => []) with ⟨outputs, final, ran, _, outputsDenote⟩
  refine ⟨outputs, final.graph, ran, outputsDenote.scalars, ?_⟩
  intro K _ meaning simplifies exactFoldings assignment algebra evaluates options one work
  rcases simplifies.exists_evalSymbolic valid.bounded reachable.sound shaped scalars assignment with
    ⟨outputs', final', ran', isExact, denotes⟩
  rcases Prod.mk.inj (ran.symm.trans ran') with ⟨sameOutputs, sameGraph⟩
  cases Except.ok.inj sameOutputs
  rw [sameGraph, denotes.values_eq (isExact exactFoldings)]
  exact (evaluates.evaluate_stored valid
    (graph.shaped_values shaped meaning assignment) 0 options one).outcome work

namespace Graph

def symbolPair : Graph :=
  (GraphM.scalarSymbol "y").graphAfter ((GraphM.scalarSymbol "x").graphAfter .initial)

theorem reachable_symbolPair : symbolPair.Reachable :=
  .after (.after .initial (.scalarSymbol ..)) (.scalarSymbol ..)

theorem symbolPair_eq : ∃ interned : Std.HashMap Node Handle,
    symbolPair = ⟨#[⟨.constant 0, .scalar, 0⟩, ⟨.constant 1, .scalar, 0⟩, ⟨.constant 2, .scalar, 0⟩,
      ⟨.symbol 0, .scalar, 0⟩, ⟨.symbol 1, .scalar, 0⟩], interned, #["x", "y"]⟩ := by
  rcases initial_eq with ⟨zero, one, two, interned, same, _⟩
  have literals := sound_initial
  rw [same] at literals
  rcases literals.zero with ⟨_, ⟨⟩, isZero, _⟩
  rcases literals.one with ⟨_, ⟨⟩, isOne, _⟩
  rcases literals.two with ⟨_, ⟨⟩, isTwo, _⟩
  cases isZero
  cases isOne
  cases isTwo
  refine ⟨interned, ?_⟩
  rw [symbolPair, same]
  rfl

end Graph

/-- A product that overwrites its first factor. -/
def product : Tape :=
  ⟨[⟨.binary .mul, 0, 0, 1, 0⟩], 2, [⟨"a", .scalar, [0]⟩, ⟨"b", .scalar, [1]⟩], [⟨"c", .scalar, [0]⟩]⟩

theorem product_validate : product.validate = .ok () := by
  simp [product, Tape.validate, Tape.checkInputs, Tape.checkSlotCount, Tape.checkInputSlots,
    Tape.checkInstructions, Tape.checkOutputs, Instruction.spareOperands, Instruction.operands,
    Pattern.nnz, Pattern.scalar]

/-- The product of two symbols, evaluated over the rational numbers. -/
theorem product_substitutes : ∃ (outputs : Seed Handle) (after : Graph),
    (product.evalSymbolic [[⟨3⟩], [⟨4⟩]] : GraphM _).run.run Graph.symbolPair = (.ok outputs, after) ∧
    after.Scalars outputs ∧
    ∀ (assignment : Handle → List ℚ) (options : EvalOptions) (work : Vector ℚ product.numSlots),
      ((Session.holding product options (@numbers ℚ (.ofField ℚ) .propagate) 1 work).perform
        (Session.evaluate (Graph.symbolPair.values (Scalar.ofField ℚ).meaning assignment
          [[⟨3⟩], [⟨4⟩]]))).1 =
        .ok (after.values (Scalar.ofField ℚ).meaning assignment outputs) := by
  rcases Graph.symbolPair_eq with ⟨interned, same⟩
  have shaped : Session.Shaped product.inputs [[⟨3⟩], [(⟨4⟩ : Handle)]] := .cons rfl (.cons rfl .nil)
  have scalars : Graph.symbolPair.Scalars [[⟨3⟩], [⟨4⟩]] := by
    rw [same]
    simp [Graph.Scalars, Graph.pattern, Graph.entry, Graph.entry?]
  have unfolded : TracedM.foldings (product.evalSymbolic [[⟨3⟩], [⟨4⟩]]) Graph.symbolPair = [] := by
    rw [same]
    rfl
  rcases Tape.evalSymbolic_substitutes product_validate Graph.reachable_symbolPair shaped scalars with
    ⟨outputs, after, ran, stored, substitutes⟩
  refine ⟨outputs, after, ran, stored, fun assignment options work => ?_⟩
  exact substitutes Scalar.ordered_ofField.simplifies (by simp [unfolded]) assignment _
    (@numbers_evaluates ℚ (.ofField ℚ)) options 1 work

end Autodiff
