import Autodiff.Proofs.Dense
import Autodiff.Proofs.Graph.Reachable
import Autodiff.Proofs.Tape.Execution

/-!
# The meaning of expressions

An expression denotes a dense matrix: elementwise operations act on dense matrices, structural ones put
blocks together, transpose or select, and a symbol is its stored entries scattered over its pattern.
The opcodes may mean anything.

The result of this module is that patterns are sound for every interpretation in which the laws hold that
they rely on: in a well-formed graph the denotation of a node has the shape of its pattern and is zero
wherever the pattern stores nothing (`denote_supported`).
-/

namespace Autodiff

variable {K : Type} [Zero K]

def ZeroRule.Holds (rule : ZeroRule) (function : K → K → K) : Prop :=
  match rule with
  | .preserves | .union => function 0 0 = 0
  | .intersection => (∀ left, function left 0 = 0) ∧ ∀ right, function 0 right = 0
  | .leftOperand => ∀ right, function 0 right = 0
  | .dense => True

theorem ZeroRule.Holds.eq_zero {rule : ZeroRule} {function : K → K → K}
    (law : rule.Holds function) {left right : K} {leftStored rightStored : Prop}
    (absent : ¬rule.Stores leftStored rightStored) (leftZero : ¬leftStored → left = 0)
    (rightZero : ¬rightStored → right = 0) : function left right = 0 := by
  cases rule with
  | preserves | union =>
      rcases not_or.mp absent with ⟨noLeft, noRight⟩
      rw [leftZero noLeft, rightZero noRight]
      exact law
  | intersection =>
      by_cases stored : leftStored
      · rw [rightZero fun also => absent ⟨stored, also⟩]
        exact law.1 left
      · rw [leftZero stored]
        exact law.2 right
  | leftOperand =>
      rw [leftZero (not_or.mp absent).1]
      exact law right
  | dense => exact absurd trivial absent

/-- A meaning of literals and opcodes in which the literal zero is zero, and commutativity and zero rules
hold as laws; nothing else is assumed. -/
structure Interpretation (K : Type) [Zero K] extends Meaning K where
  literal_zero : literal 0 = 0
  commutes : ∀ op, op.isCommutative → ∀ left right, binary op left right = binary op right left
  preserves : ∀ op, op.preservesZero → unary op 0 = 0
  zeroRule : ∀ op : BinaryOp, op.zeroRule.Holds (binary op)

instance : Coe (Interpretation K) (Meaning K) := ⟨Interpretation.toMeaning⟩

/-! ## Scattered entries -/

/-- The matrix whose stored entries are given and that is zero elsewhere. -/
def Pattern.scatter (pattern : Pattern) (values : List K) : Dense K :=
  .ofFn pattern.nrow pattern.ncol fun row column =>
    ((pattern.nonzero? row column).bind (values[·]?)).getD 0

/-- A matrix has the shape of a pattern and is zero where the pattern stores nothing. -/
structure Dense.Supported (matrix : Dense K) (pattern : Pattern) : Prop where
  shape_eq : matrix.shape = pattern.shape
  absent : ∀ ⦃row column⦄, (row, column) ∉ pattern.positions → matrix.get row column = 0

def Dense.Holds (matrix : Dense K) (pattern : Pattern) (values : List K) : Prop :=
  List.Forall₂ (fun position value => matrix.get position.1 position.2 = value) pattern.positions
    values

variable {matrix : Dense K} {values : List K} {index : Nat}

namespace Dense

theorem Supported.nrow_eq {pattern : Pattern} (supported : matrix.Supported pattern) : matrix.nrow = pattern.nrow :=
  (Prod.mk.inj supported.shape_eq).1

theorem Supported.ncol_eq {pattern : Pattern} (supported : matrix.Supported pattern) : matrix.ncol = pattern.ncol :=
  (Prod.mk.inj supported.shape_eq).2

omit [Zero K] in
theorem isScalar_of_shape {pattern : Pattern} (same : matrix.shape = pattern.shape) :
    matrix.isScalar = pattern.isScalar := by
  rcases Prod.mk.inj same with ⟨sameRows, sameColumns⟩
  rw [isScalar, Pattern.isScalar, sameRows, sameColumns]

theorem Supported.isScalar_eq {pattern : Pattern} (supported : matrix.Supported pattern) :
    matrix.isScalar = pattern.isScalar :=
  isScalar_of_shape supported.shape_eq

theorem Holds.get_eq {pattern : Pattern} (holds : matrix.Holds pattern values) {position : Nat × Nat} {value : K}
    (isPosition : pattern.positions[index]? = some position) (isValue : values[index]? = some value) :
    matrix.get position.1 position.2 = value := by
  rcases forall₂_getElem? holds isPosition with ⟨other, isOther, same⟩
  rw [isValue] at isOther
  exact same.trans (Option.some.inj isOther).symm

theorem Supported.spread_eq_zero {pattern : Pattern} (supported : matrix.Supported pattern)
    (wellFormed : pattern.WellFormed) {row column : Nat} (absent : ¬(pattern.operandIndex? row column).isSome) :
    matrix.spread row column = 0 := by
  rw [Option.not_isSome_iff_eq_none, Pattern.operandIndex?, ← supported.isScalar_eq] at absent
  by_cases isScalar : matrix.isScalar
  · rw [if_pos isScalar] at absent
    rw [spread, if_pos isScalar]
    exact supported.absent (wellFormed.nonzero?_eq_none.mp absent)
  · rw [if_neg isScalar] at absent
    rw [spread, if_neg isScalar]
    exact supported.absent (wellFormed.nonzero?_eq_none.mp absent)

end Dense

namespace Pattern

variable {pattern : Pattern}

theorem scatter_supported (pattern : Pattern) (values : List K) :
    (pattern.scatter values).Supported pattern := by
  refine ⟨rfl, fun row column absent => ?_⟩
  by_cases inside : row < pattern.nrow ∧ column < pattern.ncol
  · rw [scatter, Dense.get_ofFn inside.1 inside.2, nonzero?_eq_none_of_not_mem absent]
    rfl
  · exact Dense.get_of_not_inside inside

theorem WellFormed.get_scatter (wellFormed : pattern.WellFormed) {position : Nat × Nat} {value : K}
    (isPosition : pattern.positions[index]? = some position) (isValue : values[index]? = some value) :
    (pattern.scatter values).get position.1 position.2 = value := by
  have inside := wellFormed.lt_of_mem (List.mem_of_getElem? isPosition)
  rw [scatter, Dense.get_ofFn inside.1 inside.2, wellFormed.nonzero?_eq_some.mpr isPosition,
    Option.bind_some, isValue]
  rfl

theorem WellFormed.scatter_holds (wellFormed : pattern.WellFormed) (length : values.length = pattern.nnz) :
    (pattern.scatter values).Holds pattern values := by
  rw [Dense.Holds, List.forall₂_iff_get]
  refine ⟨(length_positions pattern).trans length.symm, fun index inside inside' => ?_⟩
  exact wellFormed.get_scatter (List.getElem?_eq_getElem inside) (List.getElem?_eq_getElem inside')

/-- A matrix is determined by its stored entries. -/
theorem WellFormed.scatter_eq (wellFormed : pattern.WellFormed) (supported : matrix.Supported pattern)
    (holds : matrix.Holds pattern values) :
    pattern.scatter values = matrix := by
  refine Dense.ext_get supported.nrow_eq.symm supported.ncol_eq.symm fun row column _ _ => ?_
  by_cases stored : (row, column) ∈ pattern.positions
  · rcases List.mem_iff_getElem.mp stored with ⟨index, inside, same⟩
    have inside' : index < values.length := Nat.lt_of_lt_of_eq inside holds.length_eq
    have isPosition : pattern.positions[index]? = some (row, column) := by
      rw [List.getElem?_eq_getElem inside, same]
    have isValue := List.getElem?_eq_getElem inside'
    exact (wellFormed.get_scatter isPosition isValue).trans (holds.get_eq isPosition isValue).symm
  · rw [(scatter_supported pattern values).absent stored, supported.absent stored]

end Pattern

/-! ## Operations on supported matrices -/

variable {patterns : List Pattern}

namespace Dense

theorem supported_full {nrow ncol : Nat} (shape : matrix.shape = (nrow, ncol)) :
    matrix.Supported (.full nrow ncol) := by
  refine ⟨shape.trans (Pattern.shape_full nrow ncol).symm, fun row column absent => ?_⟩
  refine get_of_not_inside fun inside => absent (Pattern.mem_positions_full.mpr ?_)
  rcases Prod.mk.inj shape with ⟨rfl, rfl⟩
  exact inside

theorem supported_scalar (value : K) : (scalar value).Supported .scalar :=
  supported_full rfl

theorem supported_zeros (nrow ncol : Nat) : (zeros nrow ncol : Dense K).Supported (.blank nrow ncol) :=
  ⟨(Pattern.shape_blank nrow ncol).symm, fun _ _ _ => get_zeros ..⟩

theorem Supported.map {pattern : Pattern} (supported : matrix.Supported pattern) {function : K → K}
    (preserves : function 0 = 0) : (matrix.map function).Supported pattern := by
  refine ⟨supported.shape_eq, fun row column absent => ?_⟩
  by_cases inside : row < matrix.nrow ∧ column < matrix.ncol
  · rw [get_map inside.1 inside.2, supported.absent absent, preserves]
  · exact get_of_not_inside inside

theorem Supported.transpose {pattern : Pattern} {sources : Pattern × List Nat} (supported : matrix.Supported pattern)
    (transposed : pattern.transpose = .ok sources) (wellFormed : pattern.WellFormed) :
    matrix.transpose.Supported sources.1 := by
  refine ⟨?_, fun row column absent => ?_⟩
  · rw [Pattern.shape_of_transpose transposed]
    exact Prod.ext supported.ncol_eq supported.nrow_eq
  · rw [get_transpose]
    refine supported.absent fun stored => absent ?_
    rcases List.mem_iff_getElem?.mp stored with ⟨index, found⟩
    exact (wellFormed.transpose_routes transposed).complete found

theorem supported_zipWith {left right : Dense K} {leftPattern rightPattern pattern : Pattern}
    {rule : ZeroRule} {function : K → K → K} (leftSupported : left.Supported leftPattern)
    (rightSupported : right.Supported rightPattern) (leftWellFormed : leftPattern.WellFormed)
    (rightWellFormed : rightPattern.WellFormed)
    (broadcasts : Pattern.Broadcasts rule leftPattern rightPattern pattern)
    (law : rule.Holds function) : (zipWith function left right).Supported pattern := by
  have sameShape : (if left.isScalar then right.shape else left.shape) = pattern.shape := by
    rw [broadcasts.shape_eq, leftSupported.isScalar_eq, leftSupported.shape_eq,
      rightSupported.shape_eq]
  refine ⟨sameShape, fun row column absent => ?_⟩
  rw [zipWith, sameShape]
  by_cases inside : row < pattern.nrow ∧ column < pattern.ncol
  · rw [broadcasts.mem_iff row column inside.1 inside.2] at absent
    exact (get_ofFn inside.1 inside.2).trans (law.eq_zero absent
      (leftSupported.spread_eq_zero leftWellFormed) (rightSupported.spread_eq_zero rightWellFormed))
  · exact get_of_not_inside inside

omit [Zero K] in
theorem map_nrow_of_shape {parts : List (Dense K)}
    (same : List.Forall₂ (fun part pattern => part.shape = pattern.shape) parts patterns) :
    parts.map nrow = patterns.map Pattern.nrow := by
  induction same with
  | nil => rfl
  | cons head _ ih => simp only [List.map_cons, ih, (Prod.mk.inj head).1]

omit [Zero K] in
theorem map_ncol_of_shape {parts : List (Dense K)}
    (same : List.Forall₂ (fun part pattern => part.shape = pattern.shape) parts patterns) :
    parts.map ncol = patterns.map Pattern.ncol := by
  induction same with
  | nil => rfl
  | cons head _ ih => simp only [List.map_cons, ih, (Prod.mk.inj head).2]

theorem map_nrow_eq {parts : List (Dense K)} (supported : List.Forall₂ Supported parts patterns) :
    parts.map nrow = patterns.map Pattern.nrow :=
  map_nrow_of_shape (supported.imp fun _ _ each => each.shape_eq)

theorem map_ncol_eq {parts : List (Dense K)} (supported : List.Forall₂ Supported parts patterns) :
    parts.map ncol = patterns.map Pattern.ncol :=
  map_ncol_of_shape (supported.imp fun _ _ each => each.shape_eq)

theorem supported_concat {kind : ConcatKind} {parts : List (Dense K)} {pattern : Pattern}
    {sources : List Pattern.PartEntry} (supported : List.Forall₂ Supported parts patterns)
    (concatenates : Pattern.Concatenates kind patterns pattern sources) :
    (concat kind parts).Supported pattern := by
  have heights := map_nrow_eq supported
  have widths := map_ncol_eq supported
  refine ⟨Prod.ext ?_ ?_, fun row column absent => ?_⟩
  · exact (nrow_concat kind parts).trans (heights ▸ concatenates.nrow_eq.symm)
  · exact (ncol_concat kind parts).trans (widths ▸ concatenates.ncol_eq.symm)
  · rcases concat_cases kind parts row column with
      ⟨number, part, row', column', found, rowInside, columnInside, rfl, rfl⟩ | isZero
    · have aligned : kind.Aligned (parts.map nrow) (parts.map ncol) := by
        rw [heights, widths]
        exact concatenates.aligned
      rw [get_concat aligned found rowInside columnInside]
      rcases forall₂_getElem? supported found with ⟨partPattern, isPattern, partSupported⟩
      refine partSupported.absent fun stored => absent ?_
      rcases List.mem_iff_getElem?.mp stored with ⟨index, isStored⟩
      rw [heights, widths]
      exact @concatenates.routes.complete (number, index) _
        ⟨partPattern, (row', column'), isPattern, isStored, rfl⟩
    · exact isZero

end Dense

/-! ## Denotation -/

namespace Graph

/-- The matrix of a node, given the matrix of a symbol and those of the operands. -/
def denoteNode (graph : Graph) (meaning : Meaning K) (ownMatrix : Dense K)
    (matrices : Handle → Dense K) : Node → Dense K
  | .symbol _ => ownMatrix
  | .constant literal => .scalar (meaning.literal literal)
  | .zeros nrow ncol => .zeros nrow ncol
  | .unary op operand => (matrices operand).map (meaning.unary op)
  | .binary op lhs rhs => .zipWith (meaning.binary op) (matrices lhs) (matrices rhs)
  | .concat kind parts => .concat kind (parts.map matrices)
  | .transpose operand => (matrices operand).transpose
  | .nonzero operand index =>
    match (graph.entry? operand).bind (·.pattern.positions[index]?) with
    | some position => .scalar ((matrices operand).get position.1 position.2)
    | none => .zeros 1 1

/-- The matrix that an expression denotes, given the stored entries of the symbols. Operands come
before the nodes that read them. -/
def denote (graph : Graph) (meaning : Meaning K) (assignment : Handle → List K)
    (handle : Handle) : Dense K :=
  match graph.entry? handle with
  | some entry =>
    graph.denoteNode meaning (entry.pattern.scatter (assignment handle))
      (fun operand =>
        if _before : operand.index < handle.index then graph.denote meaning assignment operand
        else .zeros 0 0)
      entry.node
  | none => .zeros 0 0
termination_by handle.index

variable {graph : Graph} {ownMatrix : Dense K} {node : Node}

theorem denoteNode_congr {meaning : Meaning K} {first second : Handle → Dense K}
    (same : ∀ operand ∈ node.operands, first operand = second operand) :
    graph.denoteNode meaning ownMatrix first node =
      graph.denoteNode meaning ownMatrix second node := by
  cases node with
  | concat kind parts =>
      exact congrArg (Dense.concat kind) (List.map_congr_left same)
  | symbol | constant | zeros => rfl
  | unary op operand | transpose operand | nonzero operand index =>
      simp only [denoteNode, same operand (List.mem_singleton_self operand)]
  | binary op lhs rhs =>
      simp only [denoteNode, same lhs (by simp [Node.operands]),
        same rhs (by simp [Node.operands])]

variable {handle : Handle}

theorem WellFormed.denote_eq (wellFormed : graph.WellFormed) (meaning : Meaning K) (assignment : Handle → List K)
    {entry : Entry} (found : graph.entries[handle.index]? = some entry) :
    graph.denote meaning assignment handle =
      graph.denoteNode meaning (entry.pattern.scatter (assignment handle))
        (graph.denote meaning assignment) entry.node := by
  rw [denote, entry?, found]
  refine denoteNode_congr fun operand member => ?_
  rw [dif_pos ((wellFormed found).below operand member)]

theorem WellFormed.denote_symbol (wellFormed : graph.WellFormed) (meaning : Meaning K)
    (assignment : Handle → List K) {entry : Entry} (found : graph.entries[handle.index]? = some entry)
    (isSymbol : entry.node.isSymbol) :
    graph.denote meaning assignment handle = entry.pattern.scatter (assignment handle) := by
  rw [wellFormed.denote_eq meaning _ found]
  rcases entry with ⟨node, pattern, references⟩
  cases node <;> simp [Node.isSymbol] at isSymbol
  rfl

variable {matrices : Handle → Dense K}

theorem supported_parts {parts : List Handle}
    (found : List.Forall₂ (fun part pattern => graph.pattern part = .ok pattern) parts patterns)
    (supported : ∀ operand known, operand ∈ parts → graph.pattern operand = .ok known →
      (matrices operand).Supported known) :
    List.Forall₂ Dense.Supported (parts.map matrices) patterns :=
  List.forall₂_map_left_iff.mpr (forall₂_imp_of_mem found supported)

theorem denoteNode_shape (wellFormed : graph.WellFormed) {meaning : Meaning K} {pattern : Pattern}
    (derived : graph.Derived node pattern)
    (shapes : ∀ ⦃operand known⦄, operand ∈ node.operands → graph.pattern operand = .ok known →
      (matrices operand).shape = known.shape) :
    (graph.denoteNode meaning ownMatrix matrices node).shape = pattern.shape := by
  cases derived with
  | constant literal => rfl
  | zeros nrow ncol => exact (Pattern.shape_blank nrow ncol).symm
  | preserving isKnown => exact shapes (by simp [Node.operands]) isKnown
  | filling isKnown =>
      exact (shapes (by simp [Node.operands]) isKnown).trans (Pattern.shape_full _ _).symm
  | binary leftKnown rightKnown common leftSpread rightSpread combined =>
      have leftShape := shapes (by simp [Node.operands]) leftKnown
      have rightShape := shapes (by simp [Node.operands]) rightKnown
      have broadcasts := Pattern.broadcasts_of_combine (wellFormed.pattern leftKnown)
        (wellFormed.pattern rightKnown) common leftSpread rightSpread combined
      rw [broadcasts.shape_eq, ← rightShape, ← leftShape, ← Dense.isScalar_of_shape leftShape]
      rfl
  | @concat kind parts patterns combined partsKnown concatenated =>
      have concatenates := wellFormed.concatenates partsKnown concatenated
      have same : List.Forall₂ (fun matrix known => matrix.shape = Pattern.shape known)
          (parts.map matrices) patterns :=
        List.forall₂_map_left_iff.mpr (forall₂_imp_of_mem partsKnown fun _ _ => @shapes _ _)
      refine Prod.ext ((Dense.nrow_concat ..).trans ?_) ((Dense.ncol_concat ..).trans ?_)
      · rw [Dense.map_nrow_of_shape same]
        exact concatenates.nrow_eq.symm
      · rw [Dense.map_ncol_of_shape same]
        exact concatenates.ncol_eq.symm
  | transpose isKnown result =>
      have shape := shapes (by simp [Node.operands]) isKnown
      rw [Pattern.shape_of_transpose result]
      exact Prod.ext (Prod.mk.inj shape).2 (Prod.mk.inj shape).1
  | nonzero isKnown inside =>
      simp only [denoteNode]
      split <;> rfl

theorem WellFormed.shape_denote (wellFormed : graph.WellFormed) (meaning : Meaning K) (assignment : Handle → List K)
    {pattern : Pattern} (known : graph.pattern handle = .ok pattern) :
    (graph.denote meaning assignment handle).shape = pattern.shape := by
  refine wellFormed.induction (fun handle entry found ih => ?_) known
  rcases (wellFormed found).derived with isSymbol | derived
  · rw [wellFormed.denote_symbol meaning assignment found isSymbol]
    rfl
  · rw [wellFormed.denote_eq meaning assignment found]
    exact denoteNode_shape wellFormed derived ih

theorem denoteNode_supported (wellFormed : graph.WellFormed) {meaning : Interpretation K} {pattern : Pattern}
    (derived : graph.Derived node pattern) (supported : ∀ ⦃operand known⦄, operand ∈ node.operands →
      graph.pattern operand = .ok known → (matrices operand).Supported known) :
    (graph.denoteNode meaning ownMatrix matrices node).Supported pattern := by
  cases derived with
  | constant literal => exact Dense.supported_scalar _
  | zeros nrow ncol => exact Dense.supported_zeros nrow ncol
  | preserving isKnown preserves =>
      exact (supported (by simp [Node.operands]) isKnown).map (meaning.preserves _ preserves)
  | filling isKnown =>
      exact Dense.supported_full (supported (by simp [Node.operands]) isKnown).shape_eq
  | binary leftKnown rightKnown common leftSpread rightSpread combined =>
      exact Dense.supported_zipWith (supported (by simp [Node.operands]) leftKnown)
        (supported (by simp [Node.operands]) rightKnown) (wellFormed.pattern leftKnown)
        (wellFormed.pattern rightKnown) (Pattern.broadcasts_of_combine (wellFormed.pattern leftKnown)
          (wellFormed.pattern rightKnown) common leftSpread rightSpread combined) (meaning.zeroRule _)
  | concat partsKnown concatenated =>
      exact Dense.supported_concat (supported_parts partsKnown fun _ _ => @supported _ _)
        (wellFormed.concatenates partsKnown concatenated)
  | transpose isKnown result =>
      exact (supported (by simp [Node.operands]) isKnown).transpose result
        (wellFormed.pattern isKnown)
  | nonzero isKnown inside =>
      simp only [denoteNode]
      split
      · exact Dense.supported_scalar _
      · exact Dense.supported_full rfl

/-- Patterns are sound: the denotation of a node has the shape of its pattern and is zero where the
pattern stores nothing. -/
theorem WellFormed.denote_supported (wellFormed : graph.WellFormed) (meaning : Interpretation K)
    (assignment : Handle → List K) {pattern : Pattern} (known : graph.pattern handle = .ok pattern) :
    (graph.denote meaning assignment handle).Supported pattern := by
  refine wellFormed.induction (fun handle entry found ih => ?_) known
  rcases (wellFormed found).derived with isSymbol | derived
  · rw [wellFormed.denote_symbol meaning assignment found isSymbol]
    exact Pattern.scatter_supported ..
  · rw [wellFormed.denote_eq meaning assignment found]
    exact denoteNode_supported wellFormed derived ih

end Graph

end Autodiff
