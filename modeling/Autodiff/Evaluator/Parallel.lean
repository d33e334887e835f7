import Autodiff.Evaluator.Basic

/-!
# Many points, many outputs

The items of a batch are spread over workers. A worker has an evaluator of its own and takes its items
one after the other; which worker takes which items, and in which order, is not determined. The
results come back in the order of the items.
-/

namespace Autodiff

namespace Evaluator

variable {α β ι : Type}

/-- Performs the calls of numbered items one after the other on one evaluator. -/
def performEach (call : ι → EvaluatorM α β) :
    Evaluator α → List (ι × Nat) → List (Except Error β × Nat)
  | _, [] => []
  | evaluator, (item, number) :: items =>
    let (outcome, after) := evaluator.perform (call item)
    (outcome, number) :: performEach call after items

/-- Performs the calls of the items that each worker takes, and collects the results by the numbers
of the items. -/
def collect [Scalar α] (tape : Tape) (call : ι → EvaluatorM α β)
    (shares : List (List (ι × Nat))) : Except Error (List β) :=
  ((shares.flatMap (performEach call (new tape {}))).mergeSort fun left right =>
    left.2 ≤ right.2).mapM Prod.fst

def jacobianRow (inputs : List (List α)) (iind oind row : Nat) : EvaluatorM α (List α) := do
  let evaluator ← get
  let seeds := evaluator.unitSeeds evaluator.tape.outputs oind [[row]]
  let result ← reverseAd inputs seeds
  match result.sensitivities with
  | seed :: _ => (seed.block iind : Except Error (List α))
  | [] => throw (.violation .entryOutOfRange)

def evaluateBatch [Scalar α] (tape : Tape) (shares : List (List (List (List α) × Nat))) :
    Except Error (List (List (List α))) :=
  collect tape evaluate shares

def gradients [Scalar α] (tape : Tape) (inputs : List (List α)) (shares : List (List (Nat × Nat))) :
    Except Error (List (List (List α))) :=
  collect tape (gradient inputs) shares

def jacobianRows [Scalar α] (tape : Tape) (inputs : List (List α)) (iind oind : Nat)
    (shares : List (List (Nat × Nat))) : Except Error (List (List α)) := do
  let _ ← tape.block .input iind
  let _ ← tape.block .output oind
  collect tape (jacobianRow inputs iind oind) shares

end Evaluator

end Autodiff
