/-!
# Documents

The values that tapes and settings are stored as: JSON with integers told apart from other
numbers. Readers say only whether a document has the right form.
-/

namespace Autodiff

/-- A JSON value. -/
inductive Document where
  | null
  | bool (value : Bool)
  | integer (value : Int)
  | real (value : Float)
  | string (value : String)
  | array (elements : List Document)
  | object (fields : List (String × Document))
deriving Repr

namespace Document

def field? (fields : List (String × Document)) (name : String) : Option Document :=
  (fields.find? fun field => field.1 == name).map Prod.snd

def bool? : Document → Option Bool
  | .bool value => some value
  | _ => none

def string? : Document → Option String
  | .string value => some value
  | _ => none

/-- A whole number from zero to `bound`. -/
def nat? (bound : Nat) : Document → Option Nat
  | .integer (.ofNat value) => if value ≤ bound then some value else none
  | _ => none

def word? : Document → Option Nat :=
  nat? (1 <<< 64 - 1)

def halfWord? : Document → Option Nat :=
  nat? (1 <<< 32 - 1)

def float? : Document → Option Float
  | .integer value => some (Float.ofInt value)
  | .real value => some value
  | _ => none

def list? {α : Type} (element? : Document → Option α) : Document → Option (List α)
  | .array elements => elements.mapM element?
  | _ => none

/-- One of several named alternatives: its name, or an object that maps its name to null. -/
def variant? {α : Type} (ident : α → String) (all : List α) : Document → Option α
  | .string name => all.find? fun alternative => ident alternative == name
  | .object [(name, .null)] => all.find? fun alternative => ident alternative == name
  | _ => none

/-- The values of named fields in order. A record is an object, whose other fields are ignored, or
an array of the fields in order, which may stop early. -/
def record? (names : List String) : Document → Option (List (Option Document))
  | .object fields => some (names.map (field? fields))
  | .array elements =>
    if elements.length ≤ names.length then
      some ((List.range names.length).map (elements[·]?))
    else none
  | _ => none

def required? {α : Type} (read : Document → Option α) : Option Document → Option α
  | some document => read document
  | none => none

/-- The value of a field that may be left out. -/
def optional? {α : Type} (default : α) (read : Document → Option α) : Option Document → Option α
  | some document => read document
  | none => some default

end Document

end Autodiff
