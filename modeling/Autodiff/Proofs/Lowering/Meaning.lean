import Autodiff.Proofs.Graph.Denotation
import Autodiff.Proofs.Graph.EntryDependency
import Autodiff.Proofs.Lowering.PlainTapes

/-!
# What emitted values mean

A node says what its elements are, given the elements of its operands (`Graph.Element`). Under a valuation in which
every value is its instruction applied to its operands, the values of a lowered node are its elements at the stored
positions of its pattern: one case per kind of node (`Explains.forall₂_element`) and induction over the nodes
(`Accounts.holdsElements`). If the elements are those of the matrices that the expressions denote, these matrices hold
the values (`Accounts.lowered_holds`).
-/

namespace Autodiff

variable {K : Type} {graph : Graph} {known : Pattern} {handle operand : Handle}

namespace Graph

/-- What the element of a node at a position is, given the elements of the operands. -/
inductive Element (graph : Graph) (meaning : Meaning K) (elements : Handle → Nat × Nat → K) :
    Node → Nat × Nat → K → Prop where
  | constant {literal : Float} {position : Nat × Nat} :
      Element graph meaning elements (.constant literal) position (meaning.literal literal)
  | unary {op : UnaryOp} {operand : Handle} {position : Nat × Nat} :
      Element graph meaning elements (.unary op operand) position (meaning.unary op (elements operand position))
  | binary {op : BinaryOp} {lhs rhs : Handle} {left right : Pattern} {position : Nat × Nat}
      (leftKnown : graph.pattern lhs = .ok left) (rightKnown : graph.pattern rhs = .ok right) :
      Element graph meaning elements (.binary op lhs rhs) position
        (meaning.binary op (elements lhs (left.spreadTo position)) (elements rhs (right.spreadTo position)))
  | part {kind : ConcatKind} {parts : List Handle} {patterns : List Pattern} {number index : Nat} {part : Handle}
      {known : Pattern} {place : Nat × Nat}
      (partsKnown : List.Forall₂ (fun part pattern => graph.pattern part = .ok pattern) parts patterns)
      (aligned : kind.Aligned (patterns.map Pattern.nrow) (patterns.map Pattern.ncol))
      (isPart : parts[number]? = some part) (isPattern : patterns[number]? = some known)
      (isPlace : known.positions[index]? = some place) :
      Element graph meaning elements (.concat kind parts)
        (kind.rowShift (patterns.map Pattern.nrow) number + place.1,
          kind.columnShift (patterns.map Pattern.ncol) number + place.2) (elements part place)
  | transpose {operand : Handle} {position : Nat × Nat} :
      Element graph meaning elements (.transpose operand) position (elements operand (position.2, position.1))
  | nonzero {operand : Handle} {index : Nat} {known : Pattern} {position place : Nat × Nat}
      (isKnown : graph.pattern operand = .ok known) (isPlace : known.positions[index]? = some place) :
      Element graph meaning elements (.nonzero operand index) position (elements operand place)

/-- Elements for all expressions: what the node says where something is stored, and zero elsewhere. -/
structure Elements (graph : Graph) (meaning : Meaning K) (elements : Handle → Nat × Nat → K) : Prop where
  commutes : ∀ op : BinaryOp, op.isCommutative → ∀ left right,
    meaning.binary op left right = meaning.binary op right left
  stored : ∀ ⦃handle entry position element⦄, graph.entry handle = .ok entry → position ∈ entry.pattern.positions →
    graph.Element meaning elements entry.node position element → elements handle position = element
  absent : ∀ ⦃handle known position⦄, graph.pattern handle = .ok known → position ∉ known.positions →
    elements handle position = meaning.literal 0

end Graph

namespace Emission

variable {emission : Emission} {meaning : Meaning K} {value : Nat → K} {elements : Handle → Nat × Nat → K}

/-- The values of a lowered node are its elements at the stored positions. -/
def HoldsElements (graph : Graph) (emission : Emission) (value : Nat → K) (elements : Handle → Nat × Nat → K)
    (handle : Handle) : Prop :=
  ∀ ⦃known values⦄, graph.pattern handle = .ok known → emission.Lowered handle values →
    List.Forall₂ (fun position number => elements handle position = value number) known.positions values.toList

theorem HoldsElements.eq_value (holds : HoldsElements graph emission value elements handle)
    (isKnown : graph.pattern handle = .ok known) {index number : Nat} (stored : emission.StoredAt handle index number)
    {position : Nat × Nat} (isPosition : known.positions[index]? = some position) :
    elements handle position = value number := by
  rcases stored with ⟨values, lowered, found⟩
  rcases forall₂_getElem? (holds isKnown lowered) isPosition with ⟨other, isOther, same⟩
  rw [Array.getElem?_toList, found] at isOther
  cases isOther
  exact same

section Satisfies

variable (complete : graph.Elements meaning elements) (satisfies : Satisfies meaning emission value)
  (wellFormed : graph.WellFormed)
include complete satisfies wellFormed

theorem HoldsElements.eq_element (holds : HoldsElements graph emission value elements operand) {position : Nat × Nat}
    {number : Nat} (element : ElementAt graph emission operand position number)
    (isKnown : graph.pattern operand = .ok known) :
    elements operand (known.spreadTo position) = value number := by
  rcases element with ⟨entry, found, isElement⟩
  rcases Graph.pattern_eq_ok.mp isKnown with ⟨other, isOther, rfl⟩
  cases Option.some.inj ((Graph.entry_eq_ok.mp found).symm.trans isOther)
  have patternWellFormed := wellFormed.pattern isKnown
  cases lookup : entry.pattern.operandIndex? position.1 position.2 with
  | none =>
      rw [lookup] at isElement
      rw [satisfies.constant isElement]
      refine complete.absent isKnown fun stored => ?_
      rcases List.mem_iff_getElem?.mp stored with ⟨index, isPlace⟩
      rw [patternWellFormed.operandIndex?_eq_some.mpr isPlace] at lookup
      cases lookup
  | some index =>
      rw [lookup] at isElement
      exact holds.eq_value isKnown isElement (patternWellFormed.operandIndex?_eq_some.mp lookup)

/-- The values of a node are the elements that its operation makes of the operands' elements. -/
theorem Explains.forall₂_element {node : Node} {pattern : Pattern} {values : List Nat}
    (explained : Explains graph emission pattern node values) (patternWellFormed : pattern.WellFormed)
    (derived : graph.Derived node pattern)
    (holds : ∀ operand ∈ node.operands, HoldsElements graph emission value elements operand) :
    List.Forall₂ (fun position number => graph.Element meaning elements node position (value number))
      pattern.positions values := by
  have eq_element {operand : Handle} (member : operand ∈ node.operands) {known : Pattern} {position : Nat × Nat}
      {number : Nat} (element : ElementAt graph emission operand position number)
      (isKnown : graph.pattern operand = .ok known) : elements operand (known.spreadTo position) = value number :=
    (holds operand member).eq_element complete satisfies wellFormed element isKnown
  cases explained with
  | constant isConstant =>
      cases derived
      refine .cons ?_ .nil
      rw [satisfies.constant isConstant]
      exact .constant
  | zeros nrow ncol =>
      cases derived
      rw [Pattern.positions_blank]
      exact .nil
  | @unary op operand _ results =>
      have shaped : ∃ known, graph.pattern operand = .ok known ∧
          ∀ position ∈ pattern.positions, position.1 < known.nrow ∧ position.2 < known.ncol := by
        cases derived with
        | preserving isKnown => exact ⟨_, isKnown, fun _ stored => patternWellFormed.lt_of_mem stored⟩
        | filling isKnown => exact ⟨_, isKnown, fun _ stored => Pattern.mem_positions_full.mp stored⟩
      rcases shaped with ⟨known, isKnown, inside⟩
      refine forall₂_imp_of_mem results ?_
      rintro position number member ⟨element, isElement, isResult⟩
      have same := eq_element (by simp [Node.operands]) isElement isKnown
      rw [Pattern.spreadTo_eq (inside position member)] at same
      rw [satisfies.unary isResult, ← same]
      exact .unary
  | @binary op lhs rhs _ results =>
      cases derived with
      | binary leftKnown rightKnown =>
          refine results.imp ?_
          rintro position number ⟨first, second, isFirst, isSecond, isResult⟩
          rw [satisfies.binary complete.commutes isResult,
            ← eq_element (by simp [Node.operands]) isFirst leftKnown,
            ← eq_element (by simp [Node.operands]) isSecond rightKnown]
          exact .binary leftKnown rightKnown
  | @concat kind parts entries sources _ found combined routed =>
      have partsKnown := Graph.patterns_of_entries found
      cases derived with
      | concat known concatenated =>
          cases Graph.patterns_unique known partsKnown
          cases Except.ok.inj (combined.symm.trans concatenated)
          have concatenates := wellFormed.concatenates partsKnown combined
          refine (forall₂_trans concatenates.routes.routed routed).imp ?_
          rintro _ number ⟨source, ⟨partPattern, place, isPattern, isPlace, rfl⟩, part, isPart, stored⟩
          rcases forall₂_getElem? partsKnown isPart with ⟨_, isOther, isKnown⟩
          cases Option.some.inj (isPattern.symm.trans isOther)
          rw [← (holds part (List.mem_of_getElem? isPart)).eq_value isKnown stored isPlace]
          exact .part partsKnown concatenates.aligned isPart isPattern isPlace
  | @transpose operand entry sources _ found transposed routed =>
      have isKnown : graph.pattern operand = .ok entry.pattern :=
        Graph.pattern_eq_ok.mpr ⟨entry, Graph.entry_eq_ok.mp found, rfl⟩
      cases derived with
      | transpose known result =>
          cases Except.ok.inj (isKnown.symm.trans known)
          cases Except.ok.inj (transposed.symm.trans result)
          have routes := (wellFormed.pattern isKnown).transpose_routes transposed
          refine (forall₂_trans routes.routed routed).imp ?_
          rintro position number ⟨index, isOrigin, stored⟩
          rw [← (holds operand (by simp [Node.operands])).eq_value isKnown stored isOrigin]
          exact .transpose
  | @nonzero operand index number stored =>
      cases derived with
      | nonzero isKnown below =>
          rw [← Pattern.length_positions] at below
          have isPlace := List.getElem?_eq_getElem below
          refine .cons ?_ .nil
          rw [← (holds operand (by simp [Node.operands])).eq_value isKnown stored isPlace]
          exact .nonzero isKnown isPlace

/-- The values of every lowered node are its elements, if this is so for the declared inputs. -/
theorem Accounts.holdsElements {declared : Handle → Array Nat → Prop} (accounts : Accounts graph declared emission)
    (inputsHold : ∀ ⦃handle known values⦄, declared handle values → graph.pattern handle = .ok known →
      List.Forall₂ (fun position number => elements handle position = value number) known.positions values.toList)
    (handle : Handle) :
    HoldsElements graph emission value elements handle := by
  generalize sameIndex : handle.index = index
  induction index using Nat.strongRecOn generalizing handle with
  | ind index ih =>
      intro known values isKnown lowered
      rcases accounts.accounted lowered with isDeclared | ⟨entry, isEntry, explained⟩
      · exact inputsHold isDeclared isKnown
      · have found := Graph.entry_eq_ok.mp isEntry
        rcases Graph.pattern_eq_ok.mp isKnown with ⟨other, isOther, rfl⟩
        cases Option.some.inj (found.symm.trans isOther)
        have sound := wellFormed found
        rcases sound.derived with isSymbol | derived
        · rw [explained.isSymbol_eq] at isSymbol
          cases isSymbol
        · have isElement := explained.forall₂_element complete satisfies wellFormed sound.wellFormed derived
            fun operand member => ih operand.index (sameIndex ▸ sound.below operand member) operand rfl
          exact forall₂_imp_of_mem isElement fun position number member => complete.stored isEntry member

end Satisfies

end Emission

section Denotation

variable [Zero K] {meaning : Interpretation K}

namespace Graph

theorem Element.get_eq {matrices : Handle → Dense K} {node : Node} {position : Nat × Nat} {element : K}
    (isElement : graph.Element meaning.toMeaning (fun operand place => (matrices operand).get place.1 place.2) node
      position element) (wellFormed : graph.WellFormed) (supported : ∀ ⦃operand known⦄,
      graph.pattern operand = .ok known → (matrices operand).Supported known) {ownMatrix : Dense K}
    (rowInside : position.1 < (graph.denoteNode meaning ownMatrix matrices node).nrow)
    (columnInside : position.2 < (graph.denoteNode meaning ownMatrix matrices node).ncol) :
    (graph.denoteNode meaning ownMatrix matrices node).get position.1 position.2 = element := by
  have spread {operand : Handle} {known : Pattern} (isKnown : graph.pattern operand = .ok known) :
      (matrices operand).spread position.1 position.2 =
        (matrices operand).get (known.spreadTo position).1 (known.spreadTo position).2 := by
    rw [Dense.spread, Pattern.spreadTo, (supported isKnown).isScalar_eq]
    split <;> rfl
  cases isElement with
  | constant => exact Dense.get_ofFn rowInside columnInside
  | unary => exact Dense.get_map rowInside columnInside
  | binary leftKnown rightKnown =>
      rw [← spread leftKnown, ← spread rightKnown]
      exact Dense.get_zipWith rowInside columnInside
  | @part kind parts patterns number index part known place partsKnown aligned isPart isPattern isPlace =>
      have partsSupported := supported_parts partsKnown fun part known _ => @supported part known
      rcases forall₂_getElem? partsKnown isPart with ⟨_, isOther, isKnown⟩
      cases Option.some.inj (isPattern.symm.trans isOther)
      rcases (wellFormed.pattern isKnown).lt_of_mem (List.mem_of_getElem? isPlace) with ⟨rowBelow, columnBelow⟩
      rw [← (supported isKnown).nrow_eq] at rowBelow
      rw [← (supported isKnown).ncol_eq] at columnBelow
      rw [← Dense.map_nrow_eq partsSupported, ← Dense.map_ncol_eq partsSupported] at *
      exact Dense.get_concat aligned (by rw [List.getElem?_map, isPart]; rfl) rowBelow columnBelow
  | transpose => exact Dense.get_transpose ..
  | @nonzero operand index known _ place isKnown isPlace =>
      have selected : (graph.entry? operand).bind (·.pattern.positions[index]?) = some place := by
        rcases pattern_eq_ok.mp isKnown with ⟨entry, found, rfl⟩
        rw [Graph.entry?, found, Option.bind_some, isPlace]
      simp only [denoteNode, selected] at rowInside columnInside ⊢
      exact Dense.get_ofFn rowInside columnInside

theorem WellFormed.elements_denote (wellFormed : graph.WellFormed) (assignment : Handle → List K) :
    graph.Elements meaning.toMeaning fun handle position =>
      (graph.denote meaning assignment handle).get position.1 position.2 where
  commutes := meaning.commutes
  stored := by
    intro handle entry position element isEntry member isElement
    have found := entry_eq_ok.mp isEntry
    have supported := wellFormed.denote_supported meaning assignment (pattern_eq_ok.mpr ⟨entry, found, rfl⟩)
    rcases (wellFormed found).wellFormed.lt_of_mem member with ⟨rowInside, columnInside⟩
    rw [← supported.nrow_eq] at rowInside
    rw [← supported.ncol_eq] at columnInside
    rw [wellFormed.denote_eq meaning assignment found] at rowInside columnInside ⊢
    exact isElement.get_eq wellFormed (fun _ _ => wellFormed.denote_supported meaning assignment) rowInside columnInside
  absent := by
    intro handle known position isKnown notStored
    rw [meaning.literal_zero]
    exact (wellFormed.denote_supported meaning assignment isKnown).absent notStored

end Graph

/-- The values of every lowered node are the stored entries of the matrix that it denotes, if this is
so for the declared inputs. -/
theorem Emission.Accounts.lowered_holds {emission : Emission} {value : Nat → K}
    {declared : Handle → Array Nat → Prop} (accounts : Accounts graph declared emission)
    (satisfies : Satisfies meaning.toMeaning emission value) (wellFormed : graph.WellFormed)
    {assignment : Handle → List K} (inputsHold : ∀ ⦃handle known values⦄, declared handle values →
      graph.pattern handle = .ok known →
      (graph.denote meaning assignment handle).Holds known (values.toList.map value))
    {handle : Handle} {known : Pattern} (isKnown : graph.pattern handle = .ok known) {values : Array Nat}
    (lowered : emission.Lowered handle values) :
    (graph.denote meaning assignment handle).Holds known (values.toList.map value) := by
  simp only [Dense.Holds, List.forall₂_map_right_iff] at inputsHold ⊢
  refine accounts.holdsElements ?_ satisfies wellFormed inputsHold handle isKnown lowered
  exact wellFormed.elements_denote assignment

end Denotation

end Autodiff
