import Autodiff.Decimal.Text
import Autodiff.Options

/-!
# C statements

The straight-line C that tapes are written as. The input array is `x`, the output array `y` and
the working array `w`; every statement is one assignment.
-/

namespace Autodiff.CSource

inductive Term where
  | cell (slot : Nat)
  | number (value : Float)
deriving DecidableEq, Repr

inductive Expr where
  | term (inner : Term)
  | arithmetic (symbol : String) (lhs rhs : Term)
  | negation (slot : Nat)
  /-- One, minus one or the cell itself by its sign. -/
  | sign (slot : Nat)
  | call (function : String) (slots : List Nat)
deriving DecidableEq, Repr

inductive Statement where
  /-- Copies an input into the working array. -/
  | loadInput (index : Nat)
  | assign (slot : Nat) (value : Expr)
  /-- Copies a cell of the working array into an output. -/
  | storeOutput (index slot : Nat)
deriving DecidableEq, Repr

/-- The suffix of numbers of the real type. -/
def literalSuffix (options : CodeOptions) : String :=
  match options.realType with
  | "float" => "f"
  | "long double" => "L"
  | _ => ""

/-- The suffix of library functions for the real type; only C99 has them. -/
def mathSuffix (options : CodeOptions) : String :=
  match options.dialect, options.realType with
  | .c99, "float" => "f"
  | .c99, "long double" => "l"
  | _, _ => ""

/-- A number. What is not finite becomes a quotient, and negative numbers stand in
parentheses. -/
def numberText (options : CodeOptions) (value : Float) : String :=
  match FloatParts.ofFloat value with
  | .nan => "(0.0/0.0)"
  | .infinite false => "(1.0/0.0)"
  | .infinite true => "(-1.0/0.0)"
  | .finite negative _ =>
    let text := literalText value ++ literalSuffix options
    if negative then "(" ++ text ++ ")" else text

def cellText (slot : Nat) : String :=
  "w[" ++ toString slot ++ "]"

def Term.text (options : CodeOptions) : Term → String
  | .cell slot => cellText slot
  | .number value => numberText options value

def Expr.text (options : CodeOptions) : Expr → String
  | .term inner => inner.text options
  | .arithmetic symbol lhs rhs => lhs.text options ++ symbol ++ rhs.text options
  | .negation slot => "(-" ++ cellText slot ++ ")"
  | .sign slot =>
    let cell := cellText slot
    let one := numberText options 1
    "(" ++ cell ++ ">0 ? " ++ one ++ " : (" ++ cell ++ "<0 ? -" ++ one ++ " : " ++ cell ++ "))"
  | .call function slots =>
    function ++ mathSuffix options ++ "(" ++ ", ".intercalate (slots.map cellText) ++ ")"

def Statement.line (options : CodeOptions) : Statement → String
  | .loadInput index => s!"  w[{index}] = x[{index}];\n"
  | .assign slot value => "  " ++ cellText slot ++ " = " ++ value.text options ++ ";\n"
  | .storeOutput index slot => s!"  y[{index}] = " ++ cellText slot ++ ";\n"

end Autodiff.CSource
