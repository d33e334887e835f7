import Autodiff.Document.Value

/-!
# Tokens of JSON text

A text is cut into brackets, separators and scalars. Every step takes at least one character, so
the length of what is left bounds the scan.
-/

namespace Autodiff

inductive Token where
  | openArray
  | closeArray
  | openObject
  | closeObject
  | comma
  | colon
  | scalar (value : Document)
deriving Repr

namespace Token

def hexDigit? (digit : Char) : Option Nat :=
  if digit.isDigit then some (digit.toNat - '0'.toNat)
  else if 'a' ≤ digit ∧ digit ≤ 'f' then some (digit.toNat - 'a'.toNat + 10)
  else if 'A' ≤ digit ∧ digit ≤ 'F' then some (digit.toNat - 'A'.toNat + 10)
  else none

def hexNumber? (digits : List Char) : Option Nat :=
  digits.foldlM (fun value digit => (hexDigit? digit).map (16 * value + ·)) 0

def decimalNumber (digits : List Char) : Nat :=
  digits.foldl (fun value digit => 10 * value + (digit.toNat - '0'.toNat)) 0

/-- The inside of a quoted text, escapes included, and what follows the closing quote. -/
def quoted? : List Char → Option (List Char × List Char)
  | [] => none
  | '"' :: rest => some ([], rest)
  | '\\' :: escaped :: rest =>
    (quoted? rest).map fun (body, rest) => ('\\' :: escaped :: body, rest)
  | char :: rest => (quoted? rest).map fun (body, rest) => (char :: body, rest)

theorem quoted?_length {text body rest : List Char} (found : quoted? text = some (body, rest)) :
    rest.length < text.length := by
  fun_induction quoted? text generalizing body rest with
  | case1 => simp at found
  | case2 tail =>
    simp only [Option.some.injEq, Prod.mk.injEq] at found
    simp [← found.2]
  | case3 escaped tail ih =>
    obtain ⟨⟨inner, left⟩, innerFound, same⟩ := Option.map_eq_some_iff.1 found
    have shorter := ih innerFound
    simp only [Prod.mk.injEq] at same
    simp only [← same.2, List.length_cons]
    omega
  | case4 char tail _ _ ih =>
    obtain ⟨⟨inner, left⟩, innerFound, same⟩ := Option.map_eq_some_iff.1 found
    have shorter := ih innerFound
    simp only [Prod.mk.injEq] at same
    simp only [← same.2, List.length_cons]
    omega

/-- The character that a one-letter escape stands for. -/
def escapedChar? : Char → Option Char
  | '"' => some '"'
  | '\\' => some '\\'
  | '/' => some '/'
  | 'b' => some '\x08'
  | 'f' => some '\x0c'
  | 'n' => some '\n'
  | 'r' => some '\r'
  | 't' => some '\t'
  | _ => none

/-- The code units of a quoted text; a numbered escape may be half of a pair. -/
def units? : List Char → Option (List Nat)
  | [] => some []
  | '\\' :: 'u' :: a :: b :: c :: d :: rest => do
    return (← hexNumber? [a, b, c, d]) :: (← units? rest)
  | '\\' :: escaped :: rest => do return (← escapedChar? escaped).toNat :: (← units? rest)
  | char :: rest => do return char.toNat :: (← units? rest)

/-- Joins paired code units into characters; half a pair is no character. -/
def joinUnits? : List Nat → Option (List Char)
  | [] => some []
  | [unit] => if unit.isValidChar then some [Char.ofNat unit] else none
  | first :: second :: rest =>
    if first.isValidChar then (joinUnits? (second :: rest)).map (Char.ofNat first :: ·)
    else if 0xd800 ≤ first ∧ first < 0xdc00 ∧ 0xdc00 ≤ second ∧ second < 0xe000 then
      (joinUnits? rest).map
        (Char.ofNat (0x10000 + 0x400 * (first - 0xd800) + (second - 0xdc00)) :: ·)
    else none

def unquote? (body : List Char) : Option String := do
  return String.ofList (← joinUnits? (← units? body))

/-- The exponent mark with its digits, as a power of ten. -/
def exponent? : List Char → Option Int
  | [] => some 0
  | mark :: power =>
    let negative := power.head? == some '-'
    let digits := if negative || power.head? == some '+' then power.drop 1 else power
    if (mark == 'e' || mark == 'E') && !digits.isEmpty && digits.all Char.isDigit then
      some (if negative then -(decimalNumber digits : Int) else decimalNumber digits)
    else none

/-- The number with the given digits scaled by a power of ten, rounded to nearest. -/
def scaled (negative : Bool) (digits : List Char) (exponent : Int) : Float :=
  let magnitude := Float.ofScientific (decimalNumber digits) (exponent < 0) exponent.natAbs
  if negative then -magnitude else magnitude

/-- A number. It is an integer if it has neither a point nor an exponent, fits 64 bits and is not
a negative zero. -/
def number? (text : List Char) : Option Document := do
  let negative := text.head? == some '-'
  let text := if negative then text.drop 1 else text
  let whole := text.takeWhile Char.isDigit
  let rest := text.drop whole.length
  if whole.isEmpty then none
  else if rest.isEmpty then
    let magnitude : Int := decimalNumber whole
    let value := if negative then -magnitude else magnitude
    if -(1 <<< 63 : Nat) ≤ value ∧ value < (1 <<< 64 : Nat) ∧ !(negative && value == 0) then
      return .integer value
    else return .real (scaled negative whole 0)
  else if rest.head? == some '.' then
    let fraction := (rest.drop 1).takeWhile Char.isDigit
    let exponent ← exponent? (rest.drop (1 + fraction.length))
    if fraction.isEmpty then none
    else return .real (scaled negative (whole ++ fraction) (exponent - fraction.length))
  else return .real (scaled negative whole (← exponent? rest))

def word? (text : List Char) : Option Document :=
  if text == "null".toList then some .null
  else if text == "true".toList then some (.bool true)
  else if text == "false".toList then some (.bool false)
  else number? text

def punctuation? : Char → Option Token
  | '[' => some .openArray
  | ']' => some .closeArray
  | '\x7b' => some .openObject
  | '\x7d' => some .closeObject
  | ',' => some .comma
  | ':' => some .colon
  | _ => none

/-- Whether a character may stand in an unquoted scalar. -/
def isWordChar (char : Char) : Bool :=
  char.isAlphanum || char == '-' || char == '+' || char == '.'

/-- The tokens of a text, blanks left out. -/
def scan? (text : List Char) : Option (List Token) :=
  match text with
  | [] => some []
  | char :: rest =>
    if char.isWhitespace then scan? rest
    else match punctuation? char with
      | some token => (scan? rest).map (token :: ·)
      | none =>
        if char == '"' then
          match _found : quoted? rest with
          | none => none
          | some (body, left) => do
            return .scalar (.string (← unquote? body)) :: (← scan? left)
        else if isWordChar char then do
          let word := rest.takeWhile isWordChar
          return .scalar (← word? (char :: word)) :: (← scan? (rest.drop word.length))
        else none
termination_by text.length
decreasing_by
  · simp
  · simp
  · have shorter := quoted?_length _found
    simp only [List.length_cons]
    omega
  · simp only [List.length_cons, List.length_drop]
    omega

end Token

end Autodiff
