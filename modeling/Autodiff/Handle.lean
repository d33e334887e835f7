/-!
# Handles

A handle addresses a node of an expression graph by its index. The three constants that every
graph starts with have fixed handles.
-/

namespace Autodiff

/-- The address of a node in an expression graph. -/
structure Handle where
  index : Nat
deriving DecidableEq, Hashable, Repr

namespace Handle

def zero : Handle := ⟨0⟩

def one : Handle := ⟨1⟩

def two : Handle := ⟨2⟩

def text (handle : Handle) : String :=
  "e" ++ toString handle.index

end Handle

inductive ConcatKind where
  | horizontal | vertical | diagonal
deriving DecidableEq, Hashable, Repr

namespace ConcatKind

def all : List ConcatKind := [.horizontal, .vertical, .diagonal]

def ident : ConcatKind → String
  | .horizontal => "Horizontal"
  | .vertical => "Vertical"
  | .diagonal => "Diagonal"

def ofIdent? (name : String) : Option ConcatKind :=
  all.find? fun kind => kind.ident == name

/-- The function name that stands for a direction in printed expressions. -/
def mnemonic : ConcatKind → String
  | .horizontal => "horzcat"
  | .vertical => "vertcat"
  | .diagonal => "diagcat"

end ConcatKind

end Autodiff
