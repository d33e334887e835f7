import Autodiff.Document.Token

/-!
# Reading JSON text

A document is read by one pass over its tokens. What has been read of the open arrays and objects
is a stack of frames, innermost first, so the pass is a fold of a single step.
-/

namespace Autodiff.Document

/-- An open array or object with what it holds so far, last first. An object also has the name of
the field whose value comes next. -/
inductive Frame where
  | elements (read : List Document)
  | fields (read : List (String × Document)) (name : String)

inductive Expectation where
  | value
  | valueOrClose
  | name (read : List (String × Document))
  | nameOrClose
  | colon (read : List (String × Document)) (name : String)
  | separator
  | finished (document : Document)

/-- A partly read text: the open frames and what may come next. -/
structure Reading where
  frames : List Frame
  expectation : Expectation

namespace Reading

def start : Reading :=
  ⟨[], .value⟩

/-- Adds a field; an earlier field of the same name gives way to it. -/
def addField (read : List (String × Document)) (name : String) (value : Document) :
    List (String × Document) :=
  (name, value) :: read.filter fun field => field.1 != name

def put (value : Document) : List Frame → Reading
  | [] => ⟨[], .finished value⟩
  | .elements read :: frames => ⟨.elements (value :: read) :: frames, .separator⟩
  | .fields read name :: frames => ⟨.fields (addField read name value) name :: frames, .separator⟩

def beginValue (frames : List Frame) : Token → Option Reading
  | .openArray => some ⟨.elements [] :: frames, .valueOrClose⟩
  | .openObject => some ⟨frames, .nameOrClose⟩
  | .scalar value => some (put value frames)
  | _ => none

def step (reading : Reading) (token : Token) : Option Reading :=
  match reading.expectation, token, reading.frames with
  | .value, token, frames => beginValue frames token
  | .valueOrClose, .closeArray, .elements _ :: frames => some (put (.array []) frames)
  | .valueOrClose, token, frames => beginValue frames token
  | .name read, .scalar (.string name), frames => some ⟨frames, .colon read name⟩
  | .nameOrClose, .scalar (.string name), frames => some ⟨frames, .colon [] name⟩
  | .nameOrClose, .closeObject, frames => some (put (.object []) frames)
  | .colon read name, .colon, frames => some ⟨.fields read name :: frames, .value⟩
  | .separator, .comma, .elements read :: frames => some ⟨.elements read :: frames, .value⟩
  | .separator, .comma, .fields read _ :: frames => some ⟨frames, .name read⟩
  | .separator, .closeArray, .elements read :: frames =>
    some (put (.array read.reverse) frames)
  | .separator, .closeObject, .fields read _ :: frames =>
    some (put (.object read.reverse) frames)
  | _, _, _ => none

end Reading

/-- The document that a text writes, if it is JSON. -/
def parse? (text : String) : Option Document := do
  let tokens ← Token.scan? text.toList
  match (← tokens.foldlM Reading.step Reading.start).expectation with
  | .finished document => some document
  | _ => none

end Autodiff.Document
