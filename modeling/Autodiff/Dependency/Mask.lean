import Autodiff.Tape.Sweep

/-!
# Dependency masks

A mask has one bit per seed. Every result depends on all that its operands depend on, so
operations join masks; partials are all ones, and scaling keeps the bits that both masks have.
Cancellation is never exploited.
-/

namespace Autodiff

def masks {m : Type → Type} [Monad m] : Algebra m UInt64 where
  zero := 0
  constant _ := pure 0
  eval _ first second := pure (first ||| second)
  partials _ _ _ _ := pure (~~~0, ~~~0)
  add left right := pure (left ||| right)
  mul left right := pure (left &&& right)
  isZero mask := pure (mask == 0)
  admissible _ _ _ _ := true

def maskWidth : Nat := 64

def seedMask (number : Nat) : UInt64 :=
  1 <<< UInt64.ofNat number

/-- The numbers of the seeds in a mask, ascending. -/
def maskSeeds (mask : UInt64) : List Nat :=
  (List.range maskWidth).filter fun number => mask &&& seedMask number != 0

end Autodiff
