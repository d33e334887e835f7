import Autodiff.Decimal.Text
import Autodiff.Graph.Basic

/-!
# Printed expressions

Expressions in infix form. Nesting beyond a fixed depth is elided.
-/

namespace Autodiff.Graph

/-- Nesting beyond this depth is elided. -/
def maxDisplayDepth : Nat := 64

/-- Prints a node, eliding everything that is nested `levels` deep or deeper. -/
def displayTo (graph : Graph) : Nat → Handle → Except Error String
  | 0, _ => return "..."
  | levels + 1, handle => do
    let nested := displayTo graph levels
    let node := (← graph.entry handle).node
    match node with
    | .symbol _ => return (graph.symbolName? node).getD "?"
    | .constant value => return displayText value
    | .zeros nrow ncol => return s!"zeros({nrow}x{ncol})"
    | .unary op operand => return op.mnemonic ++ "(" ++ (← nested operand) ++ ")"
    | .binary op lhs rhs =>
      let left ← nested lhs
      let right ← nested rhs
      match op.symbol? with
      | some symbol => return "(" ++ left ++ " " ++ symbol ++ " " ++ right ++ ")"
      | none => return op.mnemonic ++ "(" ++ left ++ ", " ++ right ++ ")"
    | .concat kind parts =>
      return kind.mnemonic ++ "(" ++ ", ".intercalate (← parts.mapM nested) ++ ")"
    | .transpose operand => return (← nested operand) ++ "'"
    | .nonzero operand index => return (← nested operand) ++ "\x7b" ++ toString index ++ "\x7d"

def display (graph : Graph) (handle : Handle) : Except Error String :=
  graph.displayTo (maxDisplayDepth + 1) handle

end Autodiff.Graph
