import Autodiff.Decimal.Text
import Autodiff.Tape.Basic

/-!
# Tape listings

One line per input block, per instruction and per output block.
-/

namespace Autodiff

def slotText (slot : Nat) : String :=
  "@" ++ toString slot

def Instruction.rhsText (instruction : Instruction) : String :=
  let first := slotText instruction.fst
  let second := slotText instruction.snd
  match instruction.op with
  | .const => plainText instruction.literal
  | .unary op => op.mnemonic ++ "(" ++ first ++ ")"
  | .binary op =>
    match op.symbol? with
    | some symbol => "(" ++ first ++ " " ++ symbol ++ " " ++ second ++ ")"
    | none => op.mnemonic ++ "(" ++ first ++ ", " ++ second ++ ")"

def Instruction.line (instruction : Instruction) : String :=
  slotText instruction.out ++ " = " ++ instruction.rhsText ++ "\n"

def Block.line (block : Block) (side : Side) (index : Nat) : String :=
  side.word ++ s!"[{index}] " ++ block.name ++ " (" ++ block.pattern.text ++ "):" ++
    String.join (block.slots.map fun slot => " " ++ slotText slot) ++ "\n"

def Tape.blockLines (tape : Tape) (side : Side) : String :=
  String.join ((tape.blocks side).zipIdx.map fun (block, index) => block.line side index)

def Tape.listing (tape : Tape) : String :=
  tape.blockLines .input ++ String.join (tape.instructions.map Instruction.line) ++
    tape.blockLines .output

end Autodiff
