/-!
# Settings

Settings for lowering a graph, for numeric evaluation, for sparsity propagation and for
writing C source.
-/

namespace Autodiff

structure BuildOptions where
  /-- Reuse slots whose last reader has been emitted. -/
  reuseSlots : Bool := true
  /-- Share instructions with equal opcode and operands, and constants with equal value. -/
  shareValues : Bool := true
deriving DecidableEq, Repr

/-- What numeric evaluation does when an operation leaves its real domain. -/
inductive DomainPolicy where
  /-- Infinities and NaNs flow through to the outputs. -/
  | propagate
  /-- Fail at the first instruction that maps finite operands to a result that is not finite. -/
  | reject
deriving DecidableEq, Repr

structure EvalOptions where
  domainPolicy : DomainPolicy := .propagate
  /-- Seed directions packed into one sweep when assembling Jacobians. -/
  directionsPerSweep : Nat := 8
deriving DecidableEq, Repr

/-- Sets the number of directions per sweep, at least one. -/
def EvalOptions.withDirections (options : EvalOptions) (count : Nat) : EvalOptions :=
  { options with directionsPerSweep := max count 1 }

inductive BackendKind where
  | sequential | parallel | gpu
deriving DecidableEq, Repr

structure SparsityOptions where
  backend : BackendKind := .sequential
deriving DecidableEq, Repr

inductive Dialect where
  | c89 | c99
deriving DecidableEq, Repr

structure CodeOptions where
  dialect : Dialect := .c99
  /-- C type of every value. -/
  realType : String := "double"
  functionName : String := "f"
deriving DecidableEq, Repr

namespace DomainPolicy

def ident : DomainPolicy → String
  | .propagate => "Propagate"
  | .reject => "Reject"

def all : List DomainPolicy := [.propagate, .reject]

end DomainPolicy

namespace BackendKind

def ident : BackendKind → String
  | .sequential => "Sequential"
  | .parallel => "Parallel"
  | .gpu => "Gpu"

def all : List BackendKind := [.sequential, .parallel, .gpu]

end BackendKind

namespace Dialect

def ident : Dialect → String
  | .c89 => "C89"
  | .c99 => "C99"

def all : List Dialect := [.c89, .c99]

end Dialect

end Autodiff
