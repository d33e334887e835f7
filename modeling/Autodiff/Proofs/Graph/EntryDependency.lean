import Autodiff.Proofs.Graph.Reachable
import Mathlib.Logic.Relation

/-!
# Dependencies between entries

An element of an expression reads elements of its operands: elementwise operations read the same position, where
an operand with a single element is read everywhere, and structural ones read the element that they put there.
Only stored entries are counted, so one stored entry reads another if their positions are related like this
(`EntryReads`), and it depends on what it reaches in any number of steps (`EntryReaches`).
-/

namespace Autodiff

variable {pattern : Pattern} {operand : Handle}

/-- The position of an operand that is read for a position of the result. -/
def Pattern.spreadTo (pattern : Pattern) (position : Nat × Nat) : Nat × Nat :=
  if pattern.isScalar then (0, 0) else position

theorem Pattern.WellFormed.operandIndex?_eq_some (wellFormed : pattern.WellFormed) {position : Nat × Nat}
    {index : Nat} :
    pattern.operandIndex? position.1 position.2 = some index ↔
      pattern.positions[index]? = some (pattern.spreadTo position) := by
  unfold operandIndex? spreadTo
  split <;> exact wellFormed.nonzero?_eq_some

theorem Pattern.spreadTo_eq {position : Nat × Nat} (inside : position.1 < pattern.nrow ∧ position.2 < pattern.ncol) :
    pattern.spreadTo position = position := by
  unfold spreadTo
  split
  · rename_i single
    simp only [isScalar, Bool.and_eq_true, beq_iff_eq] at single
    rcases position with ⟨row, column⟩
    obtain ⟨rfl, rfl⟩ : row = 0 ∧ column = 0 := by omega
    rfl
  · rfl

namespace Graph

/-- The element of a node at a position reads the element of an operand at a position. -/
inductive Reads (graph : Graph) : Node → Nat × Nat → Handle → Nat × Nat → Prop where
  | unary {op : UnaryOp} {operand : Handle} {position : Nat × Nat} :
      Reads graph (.unary op operand) position operand position
  | left {op : BinaryOp} {lhs rhs : Handle} {pattern : Pattern} {position : Nat × Nat}
      (found : graph.pattern lhs = .ok pattern) :
      Reads graph (.binary op lhs rhs) position lhs (pattern.spreadTo position)
  | right {op : BinaryOp} {lhs rhs : Handle} {pattern : Pattern} {position : Nat × Nat}
      (found : graph.pattern rhs = .ok pattern) :
      Reads graph (.binary op lhs rhs) position rhs (pattern.spreadTo position)
  | part {kind : ConcatKind} {parts : List Handle} {patterns : List Pattern} {number : Nat}
      {part : Handle} {place : Nat × Nat}
      (found : List.Forall₂ (fun part pattern => graph.pattern part = .ok pattern) parts patterns)
      (isPart : parts[number]? = some part) :
      Reads graph (.concat kind parts)
        (kind.rowShift (patterns.map Pattern.nrow) number + place.1,
          kind.columnShift (patterns.map Pattern.ncol) number + place.2) part place
  | transpose {operand : Handle} {position : Nat × Nat} :
      Reads graph (.transpose operand) position operand (position.2, position.1)
  | nonzero {operand : Handle} {index : Nat} {pattern : Pattern} {position place : Nat × Nat}
      (found : graph.pattern operand = .ok pattern)
      (isPlace : pattern.positions[index]? = some place) :
      Reads graph (.nonzero operand index) position operand place

/-- The position of a stored entry, by its number in storage order. -/
def StoredEntry (graph : Graph) (handle : Handle) (index : Nat) (position : Nat × Nat) : Prop :=
  ∃ pattern, graph.pattern handle = .ok pattern ∧ pattern.positions[index]? = some position

def EntryReads (graph : Graph) (reader source : Handle × Nat) : Prop :=
  ∃ entry position place, graph.entry reader.1 = .ok entry ∧
    entry.pattern.positions[reader.2]? = some position ∧
    graph.Reads entry.node position source.1 place ∧
    graph.StoredEntry source.1 source.2 place

/-- A stored entry depends on a stored entry, in any number of steps. -/
def EntryReaches (graph : Graph) : Handle × Nat → Handle × Nat → Prop :=
  Relation.ReflTransGen graph.EntryReads

/-- A stored entry of an expression depends on a stored entry of an expression. -/
def EntryDepends (graph : Graph) (output input : Handle) (row column : Nat) : Prop :=
  (∃ position, graph.StoredEntry output row position) ∧
    graph.EntryReaches (output, row) (input, column)

def PlaceReaches (graph : Graph) (target : Handle × Nat) (handle : Handle) (place : Nat × Nat) :
    Prop :=
  ∃ index, graph.StoredEntry handle index place ∧ graph.EntryReaches (handle, index) target

variable {graph : Graph} {handle : Handle} {index : Nat} {entry : Entry} {target : Handle × Nat}

theorem EntryDepends.stored {output input : Handle} {row column : Nat}
    (depends : graph.EntryDepends output input row column) :
    ∃ position, graph.StoredEntry input column position := by
  rcases depends with ⟨stored, reaches⟩
  rcases Relation.ReflTransGen.cases_tail reaches with same | ⟨_, _, reads⟩
  · cases same
    exact stored
  · rcases reads with ⟨_, _, place, _, _, _, isStored⟩
    exact ⟨place, isStored⟩

theorem WellFormed.placeReaches_iff (wellFormed : graph.WellFormed) {place : Nat × Nat}
    (stored : graph.StoredEntry handle index place) :
    graph.PlaceReaches target handle place ↔ graph.EntryReaches (handle, index) target := by
  rcases stored with ⟨pattern, known, found⟩
  constructor
  · rintro ⟨other, ⟨otherPattern, otherKnown, otherFound⟩, reaches⟩
    cases Except.ok.inj (known.symm.trans otherKnown)
    have patternWellFormed := wellFormed.pattern known
    have sameIndex := (patternWellFormed.nonzero?_eq_some.mpr found).symm.trans
      (patternWellFormed.nonzero?_eq_some.mpr otherFound)
    cases Option.some.inj sameIndex
    exact reaches
  · intro reaches
    exact ⟨index, ⟨pattern, known, found⟩, reaches⟩

/-- An entry that is not the target reaches it through what it reads. -/
theorem entryReaches_iff (isEntry : graph.entry handle = .ok entry) {position : Nat × Nat}
    (isPosition : entry.pattern.positions[index]? = some position)
    (different : handle ≠ target.1) :
    graph.EntryReaches (handle, index) target ↔ ∃ operand place,
      graph.Reads entry.node position operand place ∧ graph.PlaceReaches target operand place := by
  constructor
  · intro reaches
    rcases Relation.ReflTransGen.cases_head reaches with same | ⟨⟨operand, number⟩, reads, later⟩
    · exact absurd (congrArg Prod.fst same) different
    · rcases reads with ⟨other, otherPosition, place, isOther, isOtherPosition, reads, stored⟩
      cases Except.ok.inj (isEntry.symm.trans isOther)
      cases Option.some.inj (isPosition.symm.trans isOtherPosition)
      exact ⟨operand, place, reads, number, stored, later⟩
  · rintro ⟨operand, place, reads, number, stored, later⟩
    exact .head ⟨entry, position, place, isEntry, isPosition, reads, stored⟩ later

theorem entryReaches_symbol (isEntry : graph.entry handle = .ok entry)
    (isSymbol : entry.node.isSymbol) :
    graph.EntryReaches (handle, index) target ↔ (handle, index) = target := by
  constructor
  · intro reaches
    rcases Relation.ReflTransGen.cases_head reaches with same | ⟨_, reads, _⟩
    · exact same
    · rcases reads with ⟨other, _, _, isOther, _, reads, _⟩
      cases Except.ok.inj (isEntry.symm.trans isOther)
      rcases entry with ⟨node, pattern, references⟩
      cases node <;> simp [Node.isSymbol] at isSymbol
      cases reads
  · rintro rfl
    exact .refl

/-! ## What each kind of node reads -/

section Reads

variable {position : Nat × Nat} {holds : Handle → Nat × Nat → Prop}

theorem exists_reads_unary {op : UnaryOp} :
    (∃ source place, graph.Reads (.unary op operand) position source place ∧ holds source place) ↔
      holds operand position := by
  constructor
  · rintro ⟨_, _, ⟨⟩, held⟩
    exact held
  · intro held
    exact ⟨operand, position, .unary, held⟩

theorem exists_reads_binary {op : BinaryOp} {lhs rhs : Handle} {left right : Pattern}
    (leftKnown : graph.pattern lhs = .ok left) (rightKnown : graph.pattern rhs = .ok right) :
    (∃ source place, graph.Reads (.binary op lhs rhs) position source place ∧
        holds source place) ↔
      holds lhs (left.spreadTo position) ∨ holds rhs (right.spreadTo position) := by
  constructor
  · rintro ⟨_, _, reads, held⟩
    cases reads with
    | left found => exact .inl (Except.ok.inj (found.symm.trans leftKnown) ▸ held)
    | right found => exact .inr (Except.ok.inj (found.symm.trans rightKnown) ▸ held)
  · rintro (held | held)
    · exact ⟨lhs, _, .left leftKnown, held⟩
    · exact ⟨rhs, _, .right rightKnown, held⟩

theorem exists_reads_transpose :
    (∃ source place, graph.Reads (.transpose operand) position source place ∧
        holds source place) ↔ holds operand (position.2, position.1) := by
  constructor
  · rintro ⟨_, _, ⟨⟩, held⟩
    exact held
  · intro held
    exact ⟨operand, _, .transpose, held⟩

theorem exists_reads_nonzero {place : Nat × Nat} (known : graph.pattern operand = .ok pattern)
    (isPlace : pattern.positions[index]? = some place) :
    (∃ source place, graph.Reads (.nonzero operand index) position source place ∧
        holds source place) ↔ holds operand place := by
  constructor
  · rintro ⟨_, _, reads, held⟩
    cases reads with
    | nonzero found isOther =>
        cases Except.ok.inj (found.symm.trans known)
        cases Option.some.inj (isOther.symm.trans isPlace)
        exact held
  · intro held
    exact ⟨operand, place, .nonzero known isPlace, held⟩

theorem WellFormed.exists_reads_concat (wellFormed : graph.WellFormed) {kind : ConcatKind}
    {parts : List Handle} {patterns : List Pattern} {number : Nat} {part : Handle}
    (partsKnown : List.Forall₂ (fun part pattern => graph.pattern part = .ok pattern) parts patterns)
    (isPart : parts[number]? = some part)
    (isOrigin : Pattern.concatOrigin kind patterns (number, index) position) :
    (∃ source place, graph.Reads (.concat kind parts) position source place ∧
        graph.PlaceReaches target source place) ↔ graph.EntryReaches (part, index) target := by
  constructor
  · rintro ⟨source, place, reads, other, stored, reaches⟩
    cases reads with
    | @part _ _ _ sourceNumber _ _ found isSource =>
        cases patterns_unique found partsKnown
        rcases stored with ⟨pattern, known, isPlace⟩
        rcases forall₂_getElem? partsKnown isSource with ⟨_, isPattern, isKnown⟩
        cases Except.ok.inj (known.symm.trans isKnown)
        have isAlso : Pattern.concatOrigin kind patterns (sourceNumber, other) _ :=
          ⟨pattern, place, isPattern, isPlace, rfl⟩
        cases Pattern.concatOrigin_unique (wellFormed.patterns partsKnown) isOrigin isAlso
        cases Option.some.inj (isPart.symm.trans isSource)
        exact reaches
  · intro reaches
    rcases isOrigin with ⟨pattern, place, isPattern, isPlace, rfl⟩
    rcases forall₂_getElem? partsKnown isPart with ⟨other, isOther, known⟩
    cases Option.some.inj (isPattern.symm.trans isOther)
    exact ⟨part, place, .part partsKnown isPart, index, ⟨pattern, known, isPlace⟩, reaches⟩

end Reads

end Graph

end Autodiff
