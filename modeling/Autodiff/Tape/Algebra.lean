import Autodiff.Error

/-!
# Element algebras

Every sweep over a tape is written once, over an algebra of elements. The elements decide what
the sweep computes: numbers give values and derivatives, masks give dependencies and handles give
new expressions. The operations of an algebra run in a monad, because making new expressions
changes a graph.
-/

namespace Autodiff

structure Algebra (m : Type → Type) (α : Type) where
  /-- The neutral element of `add`; it also stands for an operand that is not read. -/
  zero : α
  constant : Float → m α
  eval : Opcode → α → α → m α
  /-- The derivatives of an operation, given its operands and its result. -/
  partials : Opcode → α → α → α → m (α × α)
  add : α → α → m α
  mul : α → α → m α
  /-- Whether an element is known to be zero, so that its share of the work is skipped. -/
  isZero : α → m Bool
  /-- Whether the result of an operation is acceptable; a sweep stops at the first that is
  not. -/
  admissible : Opcode → α → α → α → Bool

end Autodiff
