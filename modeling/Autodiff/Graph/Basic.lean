import Autodiff.Graph.Node
import Autodiff.Pattern.Basic
import Std.Data.HashMap

/-!
# Expression graphs

A graph is a growing list of nodes addressed by handles. Inserting a node that is already
there returns its handle, so shared subexpressions are never duplicated; only symbols are always
fresh. Every node keeps its pattern, computed when it was inserted, and the number of distinct
nodes that read it.

Operations run in `GraphM`: they may fail, and the nodes added before a failure stay.
-/

namespace Autodiff

/-- A node with what the graph knows about it. -/
structure Entry where
  node : Node
  pattern : Pattern
  /-- The number of distinct nodes that have this node as an operand. -/
  references : Nat := 0
deriving DecidableEq, Repr

structure Graph where
  entries : Array Entry := #[]
  /-- The handle of every node that is not a symbol. -/
  interned : Std.HashMap Node Handle := ∅
  symbolNames : Array String := #[]

/-- Graph operations: nodes added before a failure stay in the graph. -/
abbrev GraphM := ExceptT Error (StateM Graph)

namespace Graph

def size (graph : Graph) : Nat :=
  graph.entries.size

def contains (graph : Graph) (handle : Handle) : Bool :=
  handle.index < graph.size

/-- What the graph knows about a node, if the handle is its own. -/
def entry? (graph : Graph) (handle : Handle) : Option Entry :=
  graph.entries[handle.index]?

/-- What the graph knows about a node that the caller promises to exist. -/
def entry (graph : Graph) (handle : Handle) : Except Error Entry :=
  match graph.entry? handle with
  | some entry => .ok entry
  | none => .error (.violation (.foreignHandle handle))

/-- Reports a handle that is not a node of the graph. -/
def check (graph : Graph) (handle : Handle) : Except Error Unit :=
  if graph.contains handle then .ok () else .error (.graph (.unknownNode handle))

def symbolName? (graph : Graph) (node : Node) : Option String :=
  match node with
  | .symbol index => graph.symbolNames[index]?
  | _ => none

/-- The value of a constant; the handle has to be a node of the graph. -/
def literal? (graph : Graph) (handle : Handle) : Except Error (Option Float) := do
  match (← graph.entry handle).node with
  | .constant value => return some value
  | _ => return none

/-- Whether a node is a constant that compares equal to `value`. -/
def isLiteral (graph : Graph) (handle : Handle) (value : Float) : Except Error Bool := do
  match ← graph.literal? handle with
  | some literal => return literal == value
  | none => return false

def addReferences (entries : Array Entry) (operands : List Handle) : Array Entry :=
  operands.foldl (fun entries operand =>
    entries.modify operand.index fun entry => { entry with references := entry.references + 1 })
    entries

def append (graph : Graph) (node : Node) (pattern : Pattern) : Handle × Graph :=
  (⟨graph.size⟩,
    { graph with
      entries := (addReferences graph.entries node.operands.eraseDups).push ⟨node, pattern, 0⟩ })

/-- The handle of a node, which is appended if the graph does not have it. -/
def insert (graph : Graph) (node : Node) (pattern : Pattern) : Handle × Graph :=
  match graph.interned[node]? with
  | some handle => (handle, graph)
  | none =>
    let (handle, graph) := graph.append node pattern
    (handle, { graph with interned := graph.interned.insert node handle })

def appendSymbol (graph : Graph) (name : String) (pattern : Pattern) : Handle × Graph :=
  let index := graph.symbolNames.size
  { graph with symbolNames := graph.symbolNames.push name }.append (.symbol index) pattern

def initial : Graph :=
  [0.0, 1.0, 2.0].foldl (fun graph value => (graph.insert (.constant value) .scalar).2) {}

end Graph

end Autodiff
