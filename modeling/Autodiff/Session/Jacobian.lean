import Autodiff.Dependency.Jacobian
import Autodiff.Pattern.Coloring
import Autodiff.Session.Basic

/-!
# Numeric Jacobians

Dense Jacobians take one direction per stored entry of the smaller side. Sparse Jacobians seed
all columns, or all rows, of one color together, so that the number of directions is the number of
colors. Directions are packed into sweeps; the width of a sweep over colors is kept in 32 bits.
-/

namespace Autodiff

/-- Cuts a list into pieces of `rest + 1` elements, the last piece possibly shorter. -/
def pieces {β : Type} (rest : Nat) : List β → List (List β)
  | [] => []
  | first :: others => (first :: others.take rest) :: pieces rest (others.drop rest)
termination_by list => list.length
decreasing_by
  simp only [List.length_drop, List.length_cons]
  omega

/-- The number of directions in a sweep over colors: at least one, and kept in 32 bits. -/
def EvalOptions.sweepWidth (options : EvalOptions) : Nat :=
  max options.directionsPerSweep 1 % (1 <<< 32)

/-- The sweeps over colors, after some of them. -/
structure ColorSweeps (α : Type) where
  /-- The number of colors that are swept. -/
  swept : Nat := 0
  /-- The seeds of the other colors. -/
  remaining : List (Seed α)
  /-- The sensitivities of the swept colors. -/
  found : List (Seed α) := []
deriving DecidableEq, Repr

namespace ColorSweeps

variable {m : Type → Type} [Monad m] [MonadExceptOf Error m] {α : Type}

/-- Sweeps the next `width` colors, or those that are left. The color behind them is counted in
32 bits. -/
def step (sweep : List (Seed α) → m (Derivatives α)) (width : Nat) (sweeps : ColorSweeps α) :
    m (ColorSweeps α) := do
  if 1 <<< 32 ≤ sweeps.swept + width then
    throw (.violation .sizeOverflow)
  let seeds := sweeps.remaining.take width
  let result ← sweep seeds
  return ⟨sweeps.swept + seeds.length, sweeps.remaining.drop width,
    sweeps.found ++ result.sensitivities⟩

/-- Sweeps all colors that are left. A sweep without a direction leaves everything as it was, so such
sweeps follow each other for ever. -/
def run (sweep : List (Seed α) → m (Derivatives α)) (width : Nat) (sweeps : ColorSweeps α) :
    m (List (Seed α)) := do
  if sweeps.remaining.isEmpty then return sweeps.found
  let after ← sweeps.step sweep width
  if after.remaining.length < sweeps.remaining.length then after.run sweep width
  else throw (.violation .noProgress)
termination_by sweeps.remaining.length

end ColorSweeps

namespace Session

variable {α : Type}

section Sweeps

variable {m : Type → Type} [Monad m] [MonadExceptOf Error m] [MonadLiftT (Except Error) m]

/-- The sensitivities of many seeds, packed into sweeps of `rest + 1` directions. -/
def packed (sweep : List (Seed α) → m (Derivatives α)) (rest : Nat) (seeds : List (Seed α)) :
    m (List (Seed α)) := do
  let results ← (pieces rest seeds).mapM sweep
  return results.flatMap Derivatives.sensitivities

/-- The dense Jacobian by forward sweeps, one direction per input entry. -/
def jacobianByColumns (session : Session α) (forward : List (Seed α) → m (Derivatives α))
    (iind oind : Nat) : m (List (List α)) := do
  let input ← session.tape.block .input iind
  let output ← session.tape.block .output oind
  let seeds := session.unitSeeds session.tape.inputs iind
    ((List.range input.slots.length).map fun entry => [entry])
  let columns ← packed forward (session.options.directionsPerSweep - 1) seeds
  (List.range output.slots.length).mapM fun row =>
    columns.mapM fun column => (column.entry oind row : Except Error α)

/-- The dense Jacobian by reverse sweeps, one direction per output entry. -/
def jacobianByRows (session : Session α) (reverse : List (Seed α) → m (Derivatives α))
    (iind oind : Nat) : m (List (List α)) := do
  let _ ← session.tape.block .input iind
  let output ← session.tape.block .output oind
  let seeds := session.unitSeeds session.tape.outputs oind
    ((List.range output.slots.length).map fun entry => [entry])
  let rows ← packed reverse (session.options.directionsPerSweep - 1) seeds
  rows.mapM fun row => (row.block iind : Except Error (List α))

/-- The dense Jacobian: by columns if the input has no more entries than the output. -/
def jacobianBy (session : Session α) (columns rows : m (List (List α))) (iind oind : Nat) :
    m (List (List α)) := do
  let input ← session.tape.block .input iind
  let output ← session.tape.block .output oind
  if input.slots.length ≤ output.slots.length then columns else rows

def colorClasses (coloring : Pattern.Coloring) : List (List Nat) :=
  (buckets coloring.count Prod.fst coloring.colors.zipIdx).map fun entries => entries.map Prod.snd

def sweepColors (session : Session α) (sweep : List (Seed α) → m (Derivatives α))
    (seeds : List (Seed α)) : m (List (Seed α)) :=
  ColorSweeps.run sweep session.options.sweepWidth { remaining := seeds }

/-- The Jacobian pattern and the values of its stored positions. Whichever side needs fewer
colors is seeded. -/
def sparseJacobianBy (session : Session α) (forward reverse : List (Seed α) → m (Derivatives α))
    (iind oind : Nat) : m (Pattern × List α) := do
  let pattern ← session.tape.jacobianPattern iind oind
  let byColumn ← pattern.columnColoring
  let byRow ← pattern.rowColoring
  if byColumn.count ≤ byRow.count then
    let found ← session.sweepColors forward
      (session.unitSeeds session.tape.inputs iind (colorClasses byColumn))
    let values ← pattern.positions.mapM fun (row, column) =>
      (directionEntry found (byColumn.colors.getD column 0) oind row : Except Error α)
    return (pattern, values)
  else
    let found ← session.sweepColors reverse
      (session.unitSeeds session.tape.outputs oind (colorClasses byRow))
    let values ← pattern.positions.mapM fun (row, column) =>
      (directionEntry found (byRow.colors.getD row 0) iind column : Except Error α)
    return (pattern, values)

end Sweeps

def jacobianForward (inputs : List (List α)) (iind oind : Nat) : SessionM α (List (List α)) := do
  (← get).jacobianByColumns (forwardAd inputs) iind oind

def jacobianReverse (inputs : List (List α)) (iind oind : Nat) : SessionM α (List (List α)) := do
  (← get).jacobianByRows (reverseAd inputs) iind oind

def jacobian (inputs : List (List α)) (iind oind : Nat) : SessionM α (List (List α)) := do
  (← get).jacobianBy (jacobianForward inputs iind oind) (jacobianReverse inputs iind oind) iind oind

def sparseJacobian (inputs : List (List α)) (iind oind : Nat) : SessionM α (Pattern × List α) := do
  (← get).sparseJacobianBy (forwardAd inputs) (reverseAd inputs) iind oind

end Session

end Autodiff
