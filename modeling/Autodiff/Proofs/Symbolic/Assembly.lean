import Autodiff.Proofs.Pattern.Representation
import Autodiff.Proofs.Symbolic.Calls

/-!
# Taking matrices apart and putting them together

The stored entries of a matrix expression are 1x1 expressions, and a matrix is put together from 1x1 expressions
column by column. A matrix that is assembled from a pattern and from entries has exactly this pattern and these
entries, and is zero elsewhere (`succeeds_assemble`).
-/

namespace Autodiff

namespace Graph

def storedValues {K : Type} [Zero K] (graph : Graph) (meaning : Meaning K)
    (assignment : Handle → List K) (handle : Handle) : List K :=
  match graph.pattern handle with
  | .ok pattern => pattern.positions.map fun position =>
      (graph.denote meaning assignment handle).get position.1 position.2
  | .error _ => []

theorem storedValues_eq {K : Type} [Zero K] {graph : Graph} {meaning : Meaning K}
    {assignment : Handle → List K} {handle : Handle} {pattern : Pattern}
    (known : graph.pattern handle = .ok pattern) :
    graph.storedValues meaning assignment handle = pattern.positions.map fun position =>
      (graph.denote meaning assignment handle).get position.1 position.2 := by
  rw [storedValues, known]

/-- Expressions with as many stored entries as the blocks have slots. -/
def Supplies (graph : Graph) (blocks : List Block) (inputs : List Handle) : Prop :=
  List.Forall₂ (fun block input => ∃ pattern, graph.pattern input = .ok pattern ∧
    pattern.nnz = block.slots.length) blocks inputs

end Graph

namespace Reading

variable {K : Type} [Zero K]

/-- A matrix expression over the vocabulary that stores given positions and has given entries. -/
structure Shows (reading : Reading K) (world : World) (handle : Handle) (shape : Nat × Nat)
    (stores : Nat → Nat → Prop) (entry : Nat → Nat → K) : Prop where
  represented : ∃ pattern, world.graph.pattern handle = .ok pattern ∧ pattern.Represents shape stores
  spelled : world.graph.Spelled reading.vocabulary handle
  get_eq : reading.Exact world → ∀ row column, row < shape.1 → column < shape.2 →
    (world.graph.denote reading.meaning reading.assignment handle).get row column = entry row column

variable {reading : Reading K} {world : World} {handle : Handle}

section Showing

variable {shape : Nat × Nat} {stores : Nat → Nat → Prop} {entry : Nat → Nat → K}

theorem Shows.stays (handle : Handle) (shape : Nat × Nat) (stores : Nat → Nat → Prop)
    (entry : Nat → Nat → K) : World.Stays fun world => reading.Shows world handle shape stores entry := by
  intro before after grows shown
  rcases shown.represented with ⟨pattern, known, represents⟩
  refine ⟨⟨pattern, grows.1.pattern known, represents⟩, shown.spelled.grow grows.1, ?_⟩
  intro exact row column rowInside columnInside
  rw [before.sound.denote_extends after.sound grows.1 _ _ known]
  exact shown.get_eq (exact.before grows) row column rowInside columnInside

theorem Shows.congr_entry (shown : reading.Shows world handle shape stores entry)
    {otherEntry : Nat → Nat → K}
    (sameEntry : reading.Exact world → ∀ row column, row < shape.1 → column < shape.2 →
      entry row column = otherEntry row column) :
    reading.Shows world handle shape stores otherEntry := by
  refine ⟨shown.represented, shown.spelled, ?_⟩
  intro exact row column rowInside columnInside
  exact (shown.get_eq exact row column rowInside columnInside).trans
    (sameEntry exact row column rowInside columnInside)

theorem Shows.congr (shown : reading.Shows world handle shape stores entry)
    {otherStores : Nat → Nat → Prop} {otherEntry : Nat → Nat → K}
    (sameStores : ∀ row column, stores row column ↔ otherStores row column)
    (sameEntry : ∀ row column, row < shape.1 → column < shape.2 →
      entry row column = otherEntry row column) :
    reading.Shows world handle shape otherStores otherEntry := by
  rcases shown.represented with ⟨pattern, known, represents⟩
  have shownThere : reading.Shows world handle shape otherStores entry :=
    ⟨⟨pattern, known, represents.congr sameStores⟩, shown.spelled, shown.get_eq⟩
  exact shownThere.congr_entry fun _ => sameEntry

theorem Shows.pattern_eq {pattern : Pattern}
    (shown : reading.Shows world handle pattern.shape
      (fun row column => (row, column) ∈ pattern.positions) entry)
    (wellFormed : pattern.WellFormed) : world.graph.pattern handle = .ok pattern := by
  rcases shown.represented with ⟨other, known, represents⟩
  cases represents.eq ⟨wellFormed, rfl, fun _ _ => Iff.rfl⟩
  exact known

theorem Denotes.shows {element : K} (denotes : reading.Denotes world handle element) :
    reading.Shows world handle (1, 1) (fun row column => row = 0 ∧ column = 0)
      fun _ _ => element := by
  refine ⟨⟨_, denotes.isScalar, Pattern.represents_scalar⟩, denotes.spelled, ?_⟩
  intro exact row column rowInside columnInside
  have isFirst : row = 0 ∧ column = 0 := by
    simp only at rowInside columnInside
    omega
  rw [isFirst.1, isFirst.2]
  exact denotes.value_eq exact

end Showing

/-! ## Empty matrices -/

theorem succeeds_zeros (reading : Reading K) {nrow ncol : Nat} (fits : ncol + 1 ≤ maxBuffer) :
    Succeeds world (GraphM.zeros nrow ncol) fun world handle =>
      reading.Shows world handle (nrow, ncol) (fun _ _ => False) fun _ _ => 0 := by
  have derived : world.graph.derive (.zeros nrow ncol) = .ok (.blank nrow ncol) := by
    simp only [Graph.derive, Pattern.empty, requireBuffer, if_pos fits]
    rfl
  apply (completes_adding rfl derived).mono
  intro later handle _ hasNode
  refine ⟨⟨_, hasNode.pattern_eq, Pattern.represents_blank nrow ncol⟩,
    .intro hasNode trivial (by simp [Node.operands]), ?_⟩
  intro _ row column _ _
  rcases hasNode with ⟨node, found, isZeros, _⟩
  rw [later.sound.wellFormed.denote_eq _ _ found, isZeros]
  exact Dense.get_zeros ..

/-! ## Concatenation -/

section Concatenation

variable {kind : ConcatKind} {parts : List Handle} {patterns : List Pattern}
  {combined : Pattern × List Pattern.PartEntry}

theorem succeeds_concat (several : 2 ≤ parts.length)
    (known : List.Forall₂ (fun part pattern => world.graph.pattern part = .ok pattern) parts patterns)
    (concatenated : Pattern.concat kind patterns = .ok combined) :
    Succeeds world (GraphM.concat kind parts) fun world handle =>
      world.graph.HasNode handle (.concat kind parts) combined.1 := by
  have checked : (parts.forM GraphM.check).run.run world.graph = (.ok (), world.graph) := by
    apply GraphM.run_forM
    intro part member
    rcases exists_related known member with ⟨pattern, _, isKnown⟩
    exact GraphM.run_check isKnown
  have derived : world.graph.derive (.concat kind parts) = .ok combined.1 :=
    bind_eq_ok.mpr ⟨patterns, mapM_eq_ok.mpr known, bind_eq_ok.mpr ⟨combined, concatenated, rfl⟩⟩
  apply Succeeds.query_bind checked
  rcases parts with _ | ⟨first, _ | ⟨second, parts⟩⟩
  · simp at several
  · simp at several
  · exact completes_adding rfl derived

theorem succeeds_concat_one {part : Handle} {pattern : Pattern}
    (known : world.graph.pattern part = .ok pattern) {property : World → Handle → Prop}
    (holds : property world part) : Succeeds world (GraphM.concat kind [part]) property := by
  have checked : (List.forM [part] GraphM.check).run.run world.graph = (.ok (), world.graph) := by
    apply GraphM.run_forM
    simpa using GraphM.run_check known
  apply Succeeds.query_bind checked
  exact .pure holds

theorem get_denote_concat
    (known : List.Forall₂ (fun part pattern => world.graph.pattern part = .ok pattern) parts patterns)
    (concatenated : Pattern.concat kind patterns = .ok combined)
    (hasNode : world.graph.HasNode handle (.concat kind parts) combined.1) (reading : Reading K)
    {number row column : Nat} {part : Handle} {pattern : Pattern}
    (isPart : parts[number]? = some part) (isPattern : patterns[number]? = some pattern)
    (rowInside : row < pattern.nrow) (columnInside : column < pattern.ncol) :
    (world.graph.denote reading.meaning reading.assignment handle).get
        (kind.rowShift (patterns.map Pattern.nrow) number + row)
        (kind.columnShift (patterns.map Pattern.ncol) number + column) =
      (world.graph.denote reading.meaning reading.assignment part).get row column := by
  have wellFormed := world.sound.wellFormed
  have sameShapes : List.Forall₂ (fun part pattern => part.shape = pattern.shape)
      (parts.map (world.graph.denote reading.meaning reading.assignment)) patterns := by
    rw [List.forall₂_map_left_iff]
    exact known.imp fun part pattern isKnown => wellFormed.shape_denote reading.meaning reading.assignment isKnown
  have aligned := (wellFormed.concatenates known concatenated).aligned
  rw [← Dense.map_nrow_of_shape sameShapes, ← Dense.map_ncol_of_shape sameShapes] at aligned ⊢
  rcases hasNode with ⟨entry, found, isConcat, _⟩
  rw [wellFormed.denote_eq reading.meaning reading.assignment found, isConcat, Graph.denoteNode]
  rcases forall₂_getElem? known isPart with ⟨other, isOther, isKnown⟩
  cases isPattern.symm.trans isOther
  rcases Prod.mk.inj (wellFormed.shape_denote reading.meaning reading.assignment isKnown) with ⟨sameRows, sameColumns⟩
  apply Dense.get_concat aligned
  · simp [isPart]
  · exact sameRows ▸ rowInside
  · exact sameColumns ▸ columnInside

theorem succeeds_concat_same {count : Nat} {shape whole : Nat × Nat} (positive : 0 < count)
    {stores : Nat → Nat → Nat → Prop} {entry : Nat → Nat → Nat → K}
    (shown : List.Forall₂ (fun part number =>
      reading.Shows world part shape (stores number) (entry number)) parts (List.range count))
    (concatenates : ∀ patterns : List Pattern, patterns.length = count →
      (∀ pattern ∈ patterns, pattern.shape = shape) →
      ∃ combined, Pattern.concat kind patterns = .ok combined)
    (wholeShape : (kind.height (List.replicate count shape.1),
      kind.width (List.replicate count shape.2)) = whole)
    {wholeStores : Nat → Nat → Prop} {wholeEntry : Nat → Nat → K}
    (sameStores : ∀ row column, wholeStores row column ↔ ∃ number < count, ∃ row' column',
      stores number row' column' ∧ (row, column) = Pattern.place kind count shape number row' column')
    (sameEntry : ∀ row column, row < whole.1 → column < whole.2 → ∃ number < count,
      ∃ row' < shape.1, ∃ column' < shape.2, (row, column) = Pattern.place kind count shape number row' column' ∧
        wholeEntry row column = entry number row' column') :
    Succeeds world (GraphM.concat kind parts) fun world handle =>
      reading.Shows world handle whole wholeStores wholeEntry := by
  by_cases single : count = 1
  · -- One part is the whole.
    subst single
    rcases List.forall₂_cons_right_iff.mp shown with ⟨part, rest, first, others, rfl⟩
    cases others
    rcases first.represented with ⟨pattern, known, _⟩
    have isWhole : whole = shape := by
      rw [← wholeShape]
      cases kind <;> simp [ConcatKind.height, ConcatKind.width]
    subst isWhole
    apply succeeds_concat_one known
    apply first.congr
    · intro row column
      simp [sameStores, Pattern.place]
    · intro row column rowInside columnInside
      rcases sameEntry row column rowInside columnInside with
        ⟨number, isFirst, row', _, column', _, same, isEntry⟩
      cases Nat.lt_one_iff.mp isFirst
      simp only [Pattern.place, ConcatKind.rowShift_zero, ConcatKind.columnShift_zero, Nat.zero_add] at same
      cases same
      exact isEntry.symm
  · rcases forall₂_split (shown.imp fun part number each => each.represented) with
      ⟨patterns, known, represents⟩
    have sameLength : patterns.length = count := by simpa using represents.length_eq
    have shapes : ∀ pattern ∈ patterns, pattern.shape = shape := by
      intro pattern member
      rcases exists_related represents member with ⟨number, _, each⟩
      exact each.shape_eq
    rcases concatenates patterns sameLength shapes with ⟨combined, concatenated⟩
    have several : 2 ≤ parts.length := by
      rw [known.length_eq]
      omega
    apply (succeeds_concat several known concatenated).mono
    intro later handle grows hasNode
    have laterKnown := known.imp fun part pattern isKnown => grows.1.pattern isKnown
    have stored := Pattern.Concatenates.represents_same represents
      (later.sound.wellFormed.concatenates laterKnown concatenated)
    rw [wholeShape] at stored
    refine ⟨⟨combined.1, hasNode.pattern_eq, ?_⟩, .intro hasNode trivial ?_, ?_⟩
    · exact stored.congr fun row column => (sameStores row column).symm
    · intro part member
      rcases exists_related shown member with ⟨number, _, each⟩
      exact each.spelled.grow grows.1
    · intro exact row column rowInside columnInside
      rcases sameEntry row column rowInside columnInside with
        ⟨number, inside, row', rowInside', column', columnInside', same, isEntry⟩
      have isNumber := List.getElem?_range inside
      rcases forall₂_getElem? shown.flip isNumber with ⟨part, isPart, each⟩
      rcases forall₂_getElem? represents.flip isNumber with ⟨pattern, isPattern, represented⟩
      have located := get_denote_concat laterKnown concatenated hasNode reading isPart isPattern
        (represented.nrow_eq ▸ rowInside') (represented.ncol_eq ▸ columnInside')
      rw [Pattern.map_nrow_eq_replicate represents, Pattern.map_ncol_eq_replicate represents] at located
      cases same
      rw [isEntry]
      refine located.trans ?_
      exact (Shows.stays part _ _ _ grows each).get_eq exact row' column' rowInside' columnInside'

end Concatenation

/-! ## Assembly -/

theorem succeeds_stack {cells : List Handle} {count : Nat} (positive : 0 < count)
    (fits : count ≤ maxWord) {stores : Nat → Prop} {entry : Nat → K}
    (shown : List.Forall₂ (fun cell number => reading.Shows world cell (1, 1)
      (fun row column => stores number ∧ row = 0 ∧ column = 0) fun _ _ => entry number)
      cells (List.range count)) :
    Succeeds world (GraphM.concat .vertical cells) fun world handle =>
      reading.Shows world handle (count, 1)
        (fun row column => row < count ∧ stores row ∧ column = 0) fun row _ => entry row := by
  apply succeeds_concat_same positive shown
  · intro patterns sameLength shapes
    apply Pattern.exists_vertcat fun pattern member => (Prod.mk.inj (shapes pattern member)).2
    have heights : patterns.map Pattern.nrow = List.replicate count 1 := by
      rw [List.eq_replicate_iff]
      simpa [sameLength] using fun pattern member => (Prod.mk.inj (shapes pattern member)).1
    simpa [heights, Pattern.total_replicate] using fits
  · cases count with
    | zero => omega
    | succ count =>
        simp [ConcatKind.height, ConcatKind.width, Pattern.total_replicate, List.replicate_succ, Nat.add_comm]
  · intro row column
    constructor
    · rintro ⟨inside, isStored, rfl⟩
      exact ⟨row, inside, 0, 0, ⟨isStored, rfl, rfl⟩, (Pattern.place_vertical inside.le 0 0).symm⟩
    · rintro ⟨number, inside, _, _, ⟨isStored, rfl, rfl⟩, same⟩
      rw [Pattern.place_vertical inside.le] at same
      cases same
      exact ⟨inside, isStored, rfl⟩
  · intro row column rowInside columnInside
    cases Nat.lt_one_iff.mp columnInside
    exact ⟨row, rowInside, 0, Nat.one_pos, 0, Nat.one_pos, (Pattern.place_vertical rowInside.le 0 0).symm, rfl⟩

theorem succeeds_beside {columns : List Handle} {count height : Nat} (positive : 0 < count)
    {stores : Nat → Nat → Prop} {entry : Nat → Nat → K}
    (shown : List.Forall₂ (fun part number => reading.Shows world part (height, 1)
      (fun row column => stores row number ∧ column = 0) fun row _ => entry row number)
      columns (List.range count)) :
    Succeeds world (GraphM.concat .horizontal columns) fun world handle =>
      reading.Shows world handle (height, count)
        (fun row column => column < count ∧ stores row column) entry := by
  apply succeeds_concat_same positive shown
  · intro patterns _ shapes
    exact Pattern.exists_horzcat fun pattern member => (Prod.mk.inj (shapes pattern member)).1
  · cases count with
    | zero => omega
    | succ count =>
        simp [ConcatKind.height, ConcatKind.width, Pattern.total_replicate, List.replicate_succ, Nat.add_comm]
  · intro row column
    constructor
    · rintro ⟨inside, isStored⟩
      exact ⟨column, inside, row, 0, ⟨isStored, rfl⟩, (Pattern.place_horizontal inside.le height row 0).symm⟩
    · rintro ⟨number, inside, row', _, ⟨isStored, rfl⟩, same⟩
      rw [Pattern.place_horizontal inside.le] at same
      cases same
      exact ⟨inside, isStored⟩
  · intro row column rowInside columnInside
    exact ⟨column, columnInside, row, rowInside, 0, Nat.one_pos,
      (Pattern.place_horizontal columnInside.le height row 0).symm, rfl⟩

section Assembling

variable {pattern : Pattern} {entries : List Handle} {values : List K}

variable (wellFormed : pattern.WellFormed) (denotes : List.Forall₂ (reading.Denotes world) entries values)
  (sameLength : entries.length = pattern.nnz)
include wellFormed denotes sameLength

theorem succeeds_assembleCell (row column : Nat) :
    Succeeds world (GraphM.assembleCell pattern entries.toArray row column) fun world cell =>
      reading.Shows world cell (1, 1)
        (fun row' column' => (row, column) ∈ pattern.positions ∧ row' = 0 ∧ column' = 0)
        fun _ _ => (pattern.scatter values).get row column := by
  rw [GraphM.assembleCell]
  cases found : pattern.nonzero? row column with
  | none =>
      have absent := wellFormed.nonzero?_eq_none.mp found
      apply (succeeds_zeros reading (by decide)).mono
      intro later cell _ shown
      apply shown.congr
      · simp [absent]
      · simp [(pattern.scatter_supported values).absent absent]
  | some index =>
      have isPosition := Pattern.getElem?_positions_of_nonzero? found
      have inside : index < entries.length := sameLength ▸ Pattern.lt_nnz_of_getElem? isPosition
      have isEntry := List.getElem?_eq_getElem inside
      rcases forall₂_getElem? denotes isEntry with ⟨value, isValue, isDenoted⟩
      simp only [List.getElem?_toArray, isEntry]
      apply Succeeds.pure
      apply isDenoted.shows.congr
      · simp [List.mem_of_getElem? isPosition]
      · simp [wellFormed.get_scatter isPosition isValue]

theorem succeeds_assembleColumn (fits : pattern.nrow ≤ maxBuffer) (column : Nat) :
    Succeeds world (GraphM.assembleColumn pattern entries.toArray column) fun world handle =>
      reading.Shows world handle (pattern.nrow, 1)
        (fun row column' => (row, column) ∈ pattern.positions ∧ column' = 0)
        fun row _ => (pattern.scatter values).get row column := by
  have required : requireBuffer pattern.nrow = .ok () := if_pos fits
  apply Succeeds.query_bind (GraphM.run_lift_of_ok required world.graph)
  have cells : Succeeds world ((List.range pattern.nrow).mapM fun row =>
      GraphM.assembleCell pattern entries.toArray row column) fun world cells =>
        List.Forall₂ (fun cell row => reading.Shows world cell (1, 1)
          (fun row' column' => (row, column) ∈ pattern.positions ∧ row' = 0 ∧ column' = 0)
          fun _ _ => (pattern.scatter values).get row column) cells (List.range pattern.nrow) := by
    apply Succeeds.mapM_each fun cell row => Shows.stays cell _ _ _
    intro later grows row _
    exact succeeds_assembleCell wellFormed (denotes.imp fun _ _ each => each.grow grows) sameLength row
      column
  apply cells.bind
  intro later handles _ shown
  by_cases isEmpty : pattern.nrow = 0
  · simp only [isEmpty, if_true]
    apply (succeeds_zeros reading (by decide)).mono
    intro final handle _ noneShown
    apply noneShown.congr
    · intro row column'
      refine iff_of_false id fun stored => ?_
      have inside := (wellFormed.lt_of_mem stored.1).1
      omega
    · intro row _ rowInside
      exact absurd rowInside (Nat.not_lt_zero row)
  · simp only [isEmpty, if_false]
    have positive : 0 < pattern.nrow := Nat.pos_of_ne_zero isEmpty
    have fitsWord : pattern.nrow ≤ maxWord := fits.trans (by decide)
    apply (succeeds_stack positive fitsWord shown).mono
    intro final handle _ stacked
    apply stacked.congr
    · intro row column'
      have inside : (row, column) ∈ pattern.positions → row < pattern.nrow :=
        fun stored => (wellFormed.lt_of_mem stored).1
      tauto
    · exact fun row column' _ _ => rfl

/-- The assembled matrix stores exactly the positions of the pattern, with the given entries. -/
theorem succeeds_assemble (fits : pattern.ncol = 0 ∨ pattern.nrow ≤ maxBuffer) :
    Succeeds world (GraphM.assemble pattern entries) fun world handle =>
      reading.Shows world handle pattern.shape (fun row column => (row, column) ∈ pattern.positions)
        fun row column => (pattern.scatter values).get row column := by
  simp only [GraphM.assemble, sameLength, ne_eq, not_true_eq_false, if_false]
  have columns : Succeeds world ((List.range pattern.ncol).mapM
      (GraphM.assembleColumn pattern entries.toArray)) fun world columns =>
        List.Forall₂ (fun handle column => reading.Shows world handle (pattern.nrow, 1)
          (fun row column' => (row, column) ∈ pattern.positions ∧ column' = 0)
          fun row _ => (pattern.scatter values).get row column) columns (List.range pattern.ncol) := by
    apply Succeeds.mapM_each fun handle column => Shows.stays handle _ _ _
    intro later grows column member
    have inside := List.mem_range.mp member
    exact succeeds_assembleColumn wellFormed (denotes.imp fun _ _ each => each.grow grows) sameLength
      (fits.resolve_left (by omega)) column
  apply columns.bind
  intro later handles _ shown
  by_cases isEmpty : pattern.ncol = 0
  · simp only [isEmpty, if_true]
    apply (succeeds_zeros reading (by decide)).mono
    intro final handle _ noneShown
    rw [Pattern.shape, isEmpty]
    apply noneShown.congr
    · intro row column
      refine iff_of_false id fun stored => ?_
      have inside := (wellFormed.lt_of_mem stored).2
      omega
    · intro _ column _ columnInside
      exact absurd columnInside (Nat.not_lt_zero column)
  · simp only [isEmpty, if_false]
    apply (succeeds_beside (Nat.pos_of_ne_zero isEmpty) shown).mono
    intro final handle _ beside
    apply beside.congr
    · intro row column
      have inside : (row, column) ∈ pattern.positions → column < pattern.ncol :=
        fun stored => (wellFormed.lt_of_mem stored).2
      tauto
    · exact fun row column _ _ => rfl

end Assembling

/-! ## Stored entries -/

theorem succeeds_nonzero {operand : Handle} {pattern : Pattern}
    (known : world.graph.pattern operand = .ok pattern)
    (spelled : world.graph.Spelled reading.vocabulary operand) {index : Nat} {position : Nat × Nat}
    (isPosition : pattern.positions[index]? = some position) :
    Succeeds world (GraphM.nonzero operand index) fun later handle =>
      reading.Denotes later handle
        ((world.graph.denote reading.meaning reading.assignment operand).get position.1 position.2) := by
  apply Succeeds.query_bind (GraphM.run_check known)
  apply Succeeds.query_bind (GraphM.run_pattern known)
  split
  · rename_i isOperand
    simp only [Bool.and_eq_true, decide_eq_true_eq] at isOperand
    rcases isOperand with ⟨⟨single, isScalar⟩, rfl⟩
    cases (world.sound.wellFormed.pattern known).eq_scalar isScalar single
    cases isPosition
    exact .pure ⟨known, spelled, fun _ => rfl⟩
  · have inside := Pattern.lt_nnz_of_getElem? isPosition
    have derived : world.graph.derive (.nonzero operand index) = .ok .scalar := by
      refine bind_eq_ok.mpr ⟨pattern, known, ?_⟩
      simp only [Nat.not_le.mpr inside, if_false]
      rfl
    apply (completes_adding rfl derived).mono
    intro later handle grows hasNode
    refine ⟨hasNode.pattern_eq, .intro hasNode trivial ?_, fun _ => ?_⟩
    · simpa [Node.operands] using spelled.grow grows.1
    · rcases Graph.pattern_eq_ok.mp (grows.1.pattern known) with ⟨entry, found, samePattern⟩
      have same := world.sound.denote_extends later.sound grows.1 reading.meaning reading.assignment known
      rw [value_eq_denoteNode later.sound hasNode, Graph.denoteNode, ← same]
      simp only [Graph.entry?, found, Option.bind_some, samePattern, isPosition]
      exact Dense.get_ofFn Nat.one_pos Nat.one_pos

theorem succeeds_nonzeros {operand : Handle} {pattern : Pattern}
    (known : world.graph.pattern operand = .ok pattern)
    (spelled : world.graph.Spelled reading.vocabulary operand) :
    Succeeds world (GraphM.nonzeros operand) fun later handles =>
      List.Forall₂ (reading.Denotes later) handles
        (world.graph.storedValues reading.meaning reading.assignment operand) := by
  apply Succeeds.query_bind (GraphM.run_pattern known)
  rw [Graph.storedValues_eq known, ← pattern.length_positions]
  simp only [List.forall₂_map_right_iff]
  let before : World → Nat → Nat × Nat → Prop :=
    fun _ index position => pattern.positions[index]? = some position
  have related : List.Forall₂ (before world) (List.range pattern.positions.length) pattern.positions :=
    forall₂_range pattern.positions
  apply Succeeds.mapM related (fun _ _ _ _ _ holds => holds)
  · exact fun handle position => Denotes.stays handle _
  · intro later index position grows isPosition
    have same := world.sound.denote_extends later.sound grows.1 reading.meaning reading.assignment known
    rw [← same]
    exact succeeds_nonzero (grows.1.pattern known) (spelled.grow grows.1) isPosition

theorem succeeds_blockEntries {input : Handle} {block : Block} {pattern : Pattern}
    (known : world.graph.pattern input = .ok pattern) (sameLength : pattern.nnz = block.slots.length)
    (spelled : world.graph.Spelled reading.vocabulary input) (index : Nat) :
    Succeeds world (Tape.blockEntries ((input, block), index)) fun later handles =>
      List.Forall₂ (reading.Denotes later) handles
        (world.graph.storedValues reading.meaning reading.assignment input) := by
  apply Succeeds.query_bind (GraphM.run_check known)
  apply Succeeds.query_bind (GraphM.run_pattern known)
  simp only [sameLength, ne_eq, not_true_eq_false, if_false]
  exact succeeds_nonzeros known spelled

theorem succeeds_inputEntries {tape : Tape} {inputs : List Handle}
    (supplies : world.graph.Supplies tape.inputs inputs)
    (spelled : ∀ input ∈ inputs, world.graph.Spelled reading.vocabulary input) :
    Succeeds world (tape.inputEntries inputs) fun later entries =>
      reading.DenotesSeed later entries
        (inputs.map (world.graph.storedValues reading.meaning reading.assignment)) := by
  rcases List.forall₂_iff_zip.mp supplies.flip with ⟨sameCount, fits⟩
  have firsts : (inputs.zip tape.inputs).zipIdx.map (fun numbered => numbered.1.1) = inputs := by
    have zipped : (inputs.zip tape.inputs).map Prod.fst = inputs :=
      List.map_fst_zip sameCount.le
    conv_rhs => rw [← zipped, ← List.zipIdx_map_fst 0 (inputs.zip tape.inputs), List.map_map]
    rfl
  have each : Succeeds world ((inputs.zip tape.inputs).zipIdx.mapM Tape.blockEntries)
      fun later entries => List.Forall₂ (fun handles numbered =>
        List.Forall₂ (reading.Denotes later) handles
          (world.graph.storedValues reading.meaning reading.assignment numbered.1.1)) entries
        (inputs.zip tape.inputs).zipIdx := by
    apply Succeeds.mapM_each
    · exact fun handles numbered before after grows denotes => denotes.imp fun _ _ each => each.grow grows
    · rintro later grows ⟨⟨input, block⟩, index⟩ member
      have zipMem := List.fst_mem_of_mem_zipIdx member
      rcases fits zipMem with ⟨pattern, known, sameLength⟩
      have same := world.sound.denote_extends later.sound grows.1 reading.meaning reading.assignment known
      have sameValues : later.graph.storedValues reading.meaning reading.assignment input =
          world.graph.storedValues reading.meaning reading.assignment input := by
        rw [Graph.storedValues_eq known, Graph.storedValues_eq (grows.1.pattern known), same]
      rw [← sameValues]
      have inputSpelled := spelled input (List.of_mem_zip zipMem).1
      exact succeeds_blockEntries (grows.1.pattern known) sameLength (inputSpelled.grow grows.1) index
  simp only [Tape.inputEntries, sameCount, ne_eq, not_true_eq_false, if_false]
  apply each.mono
  intro later entries _ denotes
  rw [← firsts, List.map_map]
  exact List.forall₂_map_right_iff.mpr denotes

end Reading

end Autodiff
