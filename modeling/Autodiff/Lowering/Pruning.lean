import Autodiff.Tape.Basic

/-!
# Dead instructions

An instruction is live if an output or a live instruction reads its result. Dead instructions
are dropped and the values of the others renumbered without gaps.
-/

namespace Autodiff

def raiseFlags (flags : Array Bool) (values : List Nat) : Array Bool :=
  values.foldl (fun flags value => flags.setIfInBounds value true) flags

def outputFlags (numValues : Nat) (outputs : List (List Nat)) : Array Bool :=
  raiseFlags (Array.replicate numValues false) outputs.flatten

/-- Sets the flags of what an instruction reads if its result is needed. -/
def raiseOperands (instruction : Instruction) (live : Array Bool) : Array Bool :=
  if live.getD instruction.out false then raiseFlags live instruction.operands else live

def liveValues (numInputs : Nat) (instructions : List Instruction) (outputs : List (List Nat)) :
    Array Bool :=
  instructions.foldr raiseOperands (outputFlags (numInputs + instructions.length) outputs)

/-- Renumbers the operands that an instruction reads, and its result. -/
def Instruction.rename (instruction : Instruction) (rename : Nat → Nat) (out : Nat) :
    Instruction :=
  match instruction.op with
  | .const => { instruction with out }
  | .unary _ => { instruction with out, fst := rename instruction.fst }
  | .binary _ =>
    { instruction with out, fst := rename instruction.fst, snd := rename instruction.snd }

/-- The instructions kept so far and the new number of every value. -/
structure Renumbering where
  kept : Array Instruction := #[]
  numbers : Array Nat

def Renumbering.number (renumbering : Renumbering) (value : Nat) : Nat :=
  renumbering.numbers.getD value value

def Renumbering.step (numInputs : Nat) (live : Array Bool) (renumbering : Renumbering)
    (instruction : Instruction) : Renumbering :=
  if live.getD instruction.out false then
    let out := numInputs + renumbering.kept.size
    let numbers := renumbering.numbers.setIfInBounds instruction.out out
    { kept := renumbering.kept.push
        (instruction.rename (fun value => numbers.getD value value) out)
      numbers }
  else renumbering

/-- Drops dead instructions and renumbers the values of the others and of the outputs. -/
def prune (numInputs : Nat) (instructions : List Instruction) (outputs : List (List Nat)) :
    List Instruction × List (List Nat) :=
  let live := liveValues numInputs instructions outputs
  let start : Renumbering := { numbers := Array.range (numInputs + instructions.length) }
  let result := instructions.foldl (Renumbering.step numInputs live) start
  (result.kept.toList, outputs.map fun block => block.map result.number)

end Autodiff
