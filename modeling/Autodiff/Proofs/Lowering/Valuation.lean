import Autodiff.Proofs.Lowering.Pruning
import Autodiff.Proofs.Tape.Execution

/-!
# Values of a program

The value of every number of a program, under a meaning of the opcodes. In a numbered program every value
is its instruction applied to the values of its operands (`Numbered.executeAll_out`), because nothing is
computed twice and operands come first. Dropping dead instructions therefore changes no live value.
-/

namespace Autodiff

variable {K : Type} (meaning : Meaning K)

namespace Instruction

theorem result_rename (instruction : Instruction) (rename : Nat → Nat) (out : Nat)
    (value : Nat → K) :
    (instruction.rename rename out).result meaning value =
      instruction.result meaning (value ∘ rename) := by
  cases operation : instruction.op <;> simp [result, Instruction.rename, operation]

end Instruction

namespace Numbered

variable {next : Nat} {instructions : List Instruction}

theorem executeAll_of_lt (numbered : Numbered next instructions) (value : Nat → K) {number : Nat}
    (below : number < next) : executeAll meaning instructions value number = value number := by
  induction instructions generalizing next value with
  | nil => rfl
  | cons first instructions ih =>
      refine (ih numbered.2.2 _ (Nat.lt_succ_of_lt below)).trans ?_
      exact Function.update_of_ne (by have := numbered.1; omega) ..

theorem executeAll_out (numbered : Numbered next instructions) (value : Nat → K)
    {instruction : Instruction} (member : instruction ∈ instructions) :
    executeAll meaning instructions value instruction.out =
      instruction.result meaning (executeAll meaning instructions value) := by
  induction instructions generalizing next value with
  | nil => cases member
  | cons first instructions ih =>
      rcases List.mem_cons.mp member with rfl | later
      · rcases numbered with ⟨isNext, operandsBelow, rest⟩
        have kept : ∀ number < next + 1, executeAll meaning (instruction :: instructions) value
            number = instruction.execute meaning value number :=
          fun number below => rest.executeAll_of_lt meaning _ below
        rw [kept _ (by omega), Instruction.execute, Function.update_self]
        refine Instruction.result_congr meaning fun operand isOperand => ?_
        have below := operandsBelow operand isOperand
        rw [kept _ (by omega), Instruction.execute, Function.update_of_ne (by omega)]
      · exact ih numbered.2.2 _ later

end Numbered

theorem Pruned.executeAll_eq {numInputs : Nat} {instructions kept : List Instruction}
    {outputs keptOutputs : List (List Nat)} {live : Nat → Bool} {number : Nat → Nat}
    (pruned : Pruned numInputs instructions outputs kept keptOutputs live number)
    (numbered : Numbered numInputs instructions) (value : Nat → K) {old : Nat}
    (below : old < numInputs + instructions.length) (isLive : live old) :
    executeAll meaning kept value (number old) = executeAll meaning instructions value old := by
  induction old using Nat.strongRecOn with
  | ind old ih =>
      by_cases isInput : old < numInputs
      · rw [pruned.inputs old isInput, pruned.numbered.executeAll_of_lt meaning value isInput,
          numbered.executeAll_of_lt meaning value isInput]
      · rcases numbered.exists_out (Nat.le_of_not_lt isInput) below with
          ⟨instruction, member, rfl⟩
        have keptMember := pruned.kept_mem member isLive
        have keptValue := pruned.numbered.executeAll_out meaning value keptMember
        rw [Instruction.out_rename, Instruction.result_rename] at keptValue
        rw [keptValue, numbered.executeAll_out meaning value member]
        refine Instruction.result_congr meaning fun operand isOperand => ?_
        have before := (numbered.of_mem member).2.2 operand isOperand
        exact ih operand before (Nat.lt_trans before below)
          (pruned.closed instruction member isLive operand isOperand)

end Autodiff
