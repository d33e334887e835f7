import Autodiff.Proofs.Lowering.Success
import Autodiff.Proofs.Lowering.Validation
import Autodiff.Proofs.Symbolic.Operations

/-!
# Exactly the well-posed problems can be built

What is built was well posed: post-order reaches every symbol below the outputs, and a symbol is lowered only if it
is an input.
-/

namespace Autodiff

variable {handle : Handle}

namespace Graph

variable {graph : Graph} {inputs outputs : List Handle} {options : BuildOptions} {tape : Tape}

/-- What a tape is that solves a problem. -/
structure Lowers (graph : Graph) (options : BuildOptions) (inputs outputs : List Handle) (tape : Tape) : Prop where
  validates : tape.validate = .ok ()
  inputSlots : tape.inputs.flatMap Block.slots = List.range tape.numInputNonzeros
  inputBlocks : List.Forall₂ graph.Carries inputs tape.inputs
  outputBlocks : List.Forall₂ graph.Carries outputs tape.outputs
  /-- No stage names a value that does not exist, and there are no more slots than values. -/
  stages : ∃ numInputs instructions values,
    graph.program options.shareValues inputs outputs = .ok (numInputs, instructions, values) ∧
    InOrder numInputs instructions values ∧
    InOrder numInputs (prune numInputs instructions values).1 (prune numInputs instructions values).2 ∧
    tape.numSlots ≤ numInputs + (prune numInputs instructions values).1.length

theorem WellFormed.lowers (wellFormed : graph.WellFormed)
    (built : graph.build options inputs outputs = .ok tape)
    (addressable : graph.numValues options.shareValues inputs outputs < 1 <<< 63) :
    graph.Lowers options inputs outputs tape := by
  rcases wellFormed.build_carries built with ⟨inputsCarried, outputsCarried⟩
  rcases build_stages built with
    ⟨numInputs, instructions, values, isProgram, emitted, pruned, _, ⟨slots, count⟩, _, fits, _⟩
  exact ⟨wellFormed.build_validate_eq_ok built addressable, count ▸ slots, inputsCarried, outputsCarried,
    numInputs, instructions, values, isProgram, emitted, pruned, fits⟩

/-- Building succeeds exactly on well-posed problems; every failure names a handle that makes the problem
ill-posed, so there is no cycle to report, no concatenation that does not fit and no violated promise. A built tape
passes validation, has the entries of the inputs in its first slots and carries the patterns of its inputs and
outputs. -/
theorem Evolves.build_ok_iff_wellPosed (evolves : initial.Evolves graph) (options : BuildOptions)
    (inputs outputs : List Handle) (few : graph.numValues options.shareValues inputs outputs < 2 ^ 32 - 1) :
    ((∃ tape, graph.build options inputs outputs = .ok tape) ↔ graph.WellPosed inputs outputs) ∧
      (∀ cause, graph.build options inputs outputs = .error cause → graph.Rejects inputs outputs cause) ∧
      ∀ tape, graph.build options inputs outputs = .ok tape → graph.Lowers options inputs outputs tape := by
  have wellFormed : graph.WellFormed := evolves.of_lasts lasts_wellFormed wellFormed_initial
  have addressable : graph.numValues options.shareValues inputs outputs < 1 <<< 63 :=
    Nat.lt_trans few (by decide)
  refine ⟨⟨?_, fun wellPosed => wellPosed.exists_build wellFormed options⟩, ?_,
    fun tape built => wellFormed.lowers built addressable⟩
  · rintro ⟨tape, built⟩
    exact wellFormed.wellPosed_of_build built
  · intro cause failed
    have ends := wellFormed.build_ends options inputs outputs fun _ _ => wellFormed.spelled_of_contains
    rwa [failed] at ends

/-- The double of a vector can be built over the vector, and without it the vector is reported as free. -/
theorem doubling_build_ok_iff_wellPosed : initial.Evolves doubling ∧
    (∃ tape, doubling.numValues false [⟨3⟩] [⟨4⟩] < 2 ^ 32 - 1 ∧ doubling.WellPosed [⟨3⟩] [⟨4⟩] ∧
      doubling.build ⟨true, false⟩ [⟨3⟩] [⟨4⟩] = .ok tape ∧ doubling.Lowers ⟨true, false⟩ [⟨3⟩] [⟨4⟩] tape) ∧
    doubling.numValues false [] [⟨4⟩] < 2 ^ 32 - 1 ∧ ¬doubling.WellPosed [] [⟨4⟩] ∧
      doubling.build ⟨true, false⟩ [] [⟨4⟩] = .error (.graph (.freeSymbol ⟨3⟩ "x")) ∧
      doubling.Rejects [] [⟨4⟩] (.graph (.freeSymbol ⟨3⟩ "x")) := by
  have evolves : initial.Evolves doubling :=
    .after (.after .refl (.construct (.vectorSymbol ..))) (.construct (.binary ..))
  rcases doubling_eq with ⟨zero, one, two, interned, same⟩
  have few : doubling.numValues false [⟨3⟩] [⟨4⟩] < 2 ^ 32 - 1 := by
    have count : doubling.numValues false [⟨3⟩] [⟨4⟩] = 5 := by
      rw [numValues, program, emitAll, postOrder_doubling, same]
      cbv
    rw [count]
    decide
  have built : ∃ tape, doubling.build ⟨true, false⟩ [⟨3⟩] [⟨4⟩] = .ok tape := by
    refine ⟨⟨[⟨.const, 2, unusedOperand, unusedOperand, two⟩, ⟨.binary .mul, 0, 0, 2, 0⟩,
      ⟨.binary .mul, 2, 1, 2, 0⟩], 3, [⟨"x", ⟨2, [[0, 1]]⟩, [0, 1]⟩], [⟨"o0", ⟨2, [[0, 1]]⟩, [0, 2]⟩]⟩, ?_⟩
    rw [build, emitAll, postOrder_doubling, same]
    cbv
  have fewFree : doubling.numValues false [] [⟨4⟩] < 2 ^ 32 - 1 := by
    have count : doubling.numValues false [] [⟨4⟩] = 0 := by
      rw [numValues, program, emitAll, postOrder_doubling, same]
      cbv
    rw [count]
    decide
  have failed : doubling.build ⟨true, false⟩ [] [⟨4⟩] = .error (.graph (.freeSymbol ⟨3⟩ "x")) := by
    rw [build, emitAll, postOrder_doubling, same]
    cbv
  rcases evolves.build_ok_iff_wellPosed ⟨true, false⟩ [⟨3⟩] [⟨4⟩] few with ⟨posed, _, lowers⟩
  rcases evolves.build_ok_iff_wellPosed ⟨true, false⟩ [] [⟨4⟩] fewFree with ⟨freePosed, rejects, _⟩
  refine ⟨evolves, ?_, fewFree, ?_, failed, rejects _ failed⟩
  · rcases built with ⟨tape, isBuilt⟩
    exact ⟨tape, few, posed.mp ⟨tape, isBuilt⟩, isBuilt, lowers tape isBuilt⟩
  · intro wellPosed
    rcases freePosed.mpr wellPosed with ⟨tape, isBuilt⟩
    cases failed.symm.trans isBuilt

end Graph

end Autodiff
