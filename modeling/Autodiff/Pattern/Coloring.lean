import Autodiff.Pattern.Rearrange

/-!
# Coloring

Columns that share no row can be seeded together in one sweep. The coloring is greedy: columns are
colored one after the other, each with the least color that no earlier column with a common row
has. Taken colors are stamped with the column that found them taken, so that the stamps of earlier
columns never have to be cleared.
-/

namespace Autodiff.Pattern

structure Coloring where
  colors : List Nat
  count : Nat
deriving DecidableEq, Repr

structure ColoringState where
  /-- The colors of the first lines. -/
  colors : Array Nat := #[]
  /-- For each color the last line that found it taken. -/
  stamps : Array (Option Nat) := #[]
  count : Nat := 0

/-- Stamps a color; the stamps grow up to it. -/
def stamp (line : Nat) (stamps : Array (Option Nat)) (color : Nat) : Array (Option Nat) :=
  (stamps.rightpad (color + 1) none).setIfInBounds color (some line)

/-- The colors of the lines that a line meets: those that `back` lists for its `members`. Lines that
have no color yet are passed over. -/
def takenColors (members back : Nat → List Nat) (colors : Array Nat) (line : Nat) : List Nat :=
  ((members line).flatMap back).filterMap (colors[·]?)

def colorNext (members back : Nat → List Nat) (state : ColoringState) (line : Nat) :
    ColoringState :=
  let stamps := (takenColors members back state.colors line).foldl (stamp line) state.stamps
  let color := stamps.findIdx (· != some line)
  ⟨state.colors.push color, stamps, max state.count (color + 1)⟩

def greedyColoring (count : Nat) (members back : Nat → List Nat) : Coloring :=
  let final := (List.range count).foldl (colorNext members back) {}
  ⟨final.colors.toList, final.count⟩

/-- Colors columns so that columns of one color never share a row. -/
def columnColoring (pattern : Pattern) : Except Error Coloring := do
  let columns := pattern.columns.toArray
  let rows := (← pattern.transpose).1.columns.toArray
  return greedyColoring pattern.ncol (columns[·]?.getD []) (rows[·]?.getD [])

/-- Colors rows so that rows of one color never share a column. -/
def rowColoring (pattern : Pattern) : Except Error Coloring := do
  (← pattern.transpose).1.columnColoring

end Autodiff.Pattern
