import Autodiff.Proofs.Pattern.Derivation
import Autodiff.Proofs.Pattern.Rearrangement

/-!
# Reachable graphs

A graph that was built with the constructors of expressions is well formed: operands come before the
nodes that read them, and every node but a symbol keeps the pattern that its operands' patterns
determine. The only change that a constructor makes to a graph is to append a node in canonical form whose
pattern it has derived, so an invariant is proved for appending (`Lasts`) and carried through the constructors
by `Keeps`. A constructor is followed once, for every judgement that can be read off the parts of a call (`Logic`).
-/

namespace Autodiff

variable {graph : Graph} {node : Node}

namespace Graph

/-! ## Looking up nodes -/

variable {handle : Handle} {entry : Entry}

theorem entry_eq_ok :
    graph.entry handle = .ok entry ↔ graph.entries[handle.index]? = some entry := by
  rw [Graph.entry, entry?]
  cases graph.entries[handle.index]? <;> simp

theorem pattern_eq_ok {pattern : Pattern} :
    graph.pattern handle = .ok pattern ↔
      ∃ entry, graph.entries[handle.index]? = some entry ∧ entry.pattern = pattern := by
  simp only [Graph.pattern, bind_eq_ok, entry_eq_ok]
  constructor
  · rintro ⟨entry, found, same⟩
    exact ⟨entry, found, Except.ok.inj same⟩
  · rintro ⟨entry, found, rfl⟩
    exact ⟨entry, found, rfl⟩

variable {parts : List Handle}

theorem patterns_of_entries {entries : List Entry} (found : parts.mapM graph.entry = .ok entries) :
    List.Forall₂ (fun part pattern => graph.pattern part = .ok pattern) parts
      (entries.map Entry.pattern) := by
  rw [List.forall₂_map_right_iff]
  refine (mapM_eq_ok.mp found).imp fun part entry isEntry => ?_
  exact pattern_eq_ok.mpr ⟨entry, entry_eq_ok.mp isEntry, rfl⟩

theorem patterns_unique {first second : List Pattern}
    (firstFound : List.Forall₂ (fun part pattern => graph.pattern part = .ok pattern) parts first)
    (secondFound : List.Forall₂ (fun part pattern => graph.pattern part = .ok pattern) parts
      second) : first = second :=
  List.right_unique_forall₂' (fun _ _ _ left right => Except.ok.inj (left.symm.trans right))
    firstFound secondFound

/-! ## Derived patterns -/

/-- The pattern of a node follows from the patterns of its operands. -/
inductive Derived (graph : Graph) : Node → Pattern → Prop where
  | constant (literal : Float) : Derived graph (.constant literal) .scalar
  | zeros (nrow ncol : Nat) : Derived graph (.zeros nrow ncol) (.blank nrow ncol)
  | preserving {op : UnaryOp} {operand : Handle} {pattern : Pattern}
      (found : graph.pattern operand = .ok pattern) (preserves : op.preservesZero) :
      Derived graph (.unary op operand) pattern
  | filling {op : UnaryOp} {operand : Handle} {pattern : Pattern}
      (found : graph.pattern operand = .ok pattern) (fills : ¬op.preservesZero) :
      Derived graph (.unary op operand) (.full pattern.nrow pattern.ncol)
  | binary {op : BinaryOp} {lhs rhs : Handle} {left right left' right' pattern : Pattern}
      {shape : Nat × Nat} (leftFound : graph.pattern lhs = .ok left)
      (rightFound : graph.pattern rhs = .ok right)
      (common : left.commonShape? right = some shape)
      (leftSpread : left.broadcast shape = .ok left')
      (rightSpread : right.broadcast shape = .ok right')
      (combined : left'.combine right' op.zeroRule = .ok pattern) :
      Derived graph (.binary op lhs rhs) pattern
  | concat {kind : ConcatKind} {parts : List Handle} {patterns : List Pattern}
      {combined : Pattern × List Pattern.PartEntry}
      (found : List.Forall₂ (fun part pattern => graph.pattern part = .ok pattern) parts patterns)
      (concatenated : Pattern.concat kind patterns = .ok combined) :
      Derived graph (.concat kind parts) combined.1
  | transpose {operand : Handle} {pattern : Pattern} {transposed : Pattern × List Nat}
      (found : graph.pattern operand = .ok pattern) (result : pattern.transpose = .ok transposed) :
      Derived graph (.transpose operand) transposed.1
  | nonzero {operand : Handle} {index : Nat} {pattern : Pattern}
      (found : graph.pattern operand = .ok pattern) (inside : index < pattern.nnz) :
      Derived graph (.nonzero operand index) .scalar

theorem derived_of_derive {pattern : Pattern} (derived : graph.derive node = .ok pattern) :
    graph.Derived node pattern := by
  cases node with
  | symbol index => cases derived
  | constant literal =>
      cases derived
      exact .constant literal
  | zeros nrow ncol =>
      rw [Pattern.eq_blank_of_empty derived]
      exact .zeros nrow ncol
  | unary op operand =>
      rcases bind_eq_ok.mp derived with ⟨inner, found, derived⟩
      split at derived
      · rename_i preserves
        cases derived
        exact .preserving found preserves
      · rename_i fills
        rw [Pattern.eq_full_of_dense derived]
        exact .filling found fills
  | binary op lhs rhs =>
      rcases bind_eq_ok.mp derived with ⟨left, leftFound, derived⟩
      rcases bind_eq_ok.mp derived with ⟨right, rightFound, derived⟩
      split at derived
      · cases derived
      · rename_i shape common
        rcases bind_eq_ok.mp derived with ⟨left', leftSpread, derived⟩
        rcases bind_eq_ok.mp derived with ⟨right', rightSpread, combined⟩
        exact .binary leftFound rightFound common leftSpread rightSpread combined
  | concat kind parts =>
      rcases bind_eq_ok.mp derived with ⟨patterns, found, derived⟩
      rcases bind_eq_ok.mp derived with ⟨combined, concatenated, returned⟩
      cases returned
      exact .concat (mapM_eq_ok.mp found) concatenated
  | transpose operand =>
      rcases bind_eq_ok.mp derived with ⟨inner, found, derived⟩
      rcases bind_eq_ok.mp derived with ⟨transposed, result, returned⟩
      cases returned
      exact .transpose found result
  | nonzero operand index =>
      rcases bind_eq_ok.mp derived with ⟨inner, found, derived⟩
      split at derived
      · cases derived
      · rename_i inside
        cases derived
        exact .nonzero found (Nat.lt_of_not_le inside)

theorem Derived.mono {before after : Graph} {pattern : Pattern} (derived : before.Derived node pattern)
    (keeps : ∀ ⦃handle known⦄, before.pattern handle = .ok known →
      after.pattern handle = .ok known) :
    after.Derived node pattern := by
  cases derived with
  | constant literal => exact .constant literal
  | zeros nrow ncol => exact .zeros nrow ncol
  | preserving found preserves => exact .preserving (keeps found) preserves
  | filling found fills => exact .filling (keeps found) fills
  | binary leftFound rightFound common leftSpread rightSpread combined =>
      exact .binary (keeps leftFound) (keeps rightFound) common leftSpread rightSpread combined
  | concat found concatenated => exact .concat (found.imp fun _ _ => @keeps _ _) concatenated
  | transpose found result => exact .transpose (keeps found) result
  | nonzero found inside => exact .nonzero (keeps found) inside

theorem Derived.operand_found {pattern : Pattern} (derived : graph.Derived node pattern) :
    ∀ operand ∈ node.operands, ∃ known, graph.pattern operand = .ok known := by
  cases derived with
  | constant literal => simp [Node.operands]
  | zeros nrow ncol => simp [Node.operands]
  | preserving found | filling found => simpa [Node.operands] using ⟨_, found⟩
  | binary leftFound rightFound => simpa [Node.operands] using ⟨⟨_, leftFound⟩, ⟨_, rightFound⟩⟩
  | concat found =>
      intro operand member
      rcases List.mem_iff_getElem?.mp member with ⟨index, isPart⟩
      rcases forall₂_getElem? found isPart with ⟨known, _, isKnown⟩
      exact ⟨known, isKnown⟩
  | transpose found => simpa [Node.operands] using ⟨_, found⟩
  | nonzero found => simpa [Node.operands] using ⟨_, found⟩

theorem Derived.wellFormed {pattern : Pattern} (derived : graph.Derived node pattern)
    (operands : ∀ ⦃handle known⦄, graph.pattern handle = .ok known → known.WellFormed) :
    pattern.WellFormed := by
  cases derived with
  | constant literal => exact Pattern.wellFormed_scalar
  | zeros nrow ncol => exact Pattern.wellFormed_blank nrow ncol
  | preserving found => exact operands found
  | filling found => exact Pattern.wellFormed_full _ _
  | binary leftFound rightFound common leftSpread rightSpread combined =>
      exact (Pattern.broadcasts_of_combine (operands leftFound) (operands rightFound) common
        leftSpread rightSpread combined).wellFormed
  | concat found concatenated =>
      refine (Pattern.concat_concatenates concatenated ?_).wellFormed
      intro part member
      rcases List.mem_iff_getElem?.mp member with ⟨index, isPart⟩
      rcases forall₂_getElem? found.flip isPart with ⟨handle, _, isKnown⟩
      exact operands isKnown
  | transpose found result => exact (operands found).transpose result
  | nonzero found inside => exact Pattern.wellFormed_scalar

/-! ## Well-formed graphs -/

/-- What holds of the node with a given index. -/
structure EntrySound (graph : Graph) (index : Nat) (entry : Entry) : Prop where
  wellFormed : entry.pattern.WellFormed
  below : ∀ operand ∈ entry.node.operands, operand.index < index
  derived : entry.node.isSymbol ∨ graph.Derived entry.node entry.pattern

theorem EntrySound.operand_found {index : Nat} {entry : Entry} (sound : EntrySound graph index entry) {operand : Handle}
    (member : operand ∈ entry.node.operands) : ∃ known, graph.pattern operand = .ok known := by
  rcases sound.derived with isSymbol | derived
  · rcases entry with ⟨node, pattern, references⟩
    cases node <;> simp_all [Node.isSymbol, Node.operands]
  · exact derived.operand_found operand member

/-- Every node comes after its operands and has the pattern that they determine. -/
def WellFormed (graph : Graph) : Prop :=
  ∀ ⦃index entry⦄, graph.entries[index]? = some entry → EntrySound graph index entry

theorem WellFormed.pattern (wellFormed : graph.WellFormed) {known : Pattern}
    (found : graph.pattern handle = .ok known) : known.WellFormed := by
  rcases pattern_eq_ok.mp found with ⟨entry, isEntry, rfl⟩
  exact (wellFormed isEntry).wellFormed

/-- Induction over a well-formed graph: from the operands of a node to the node. -/
@[elab_as_elim]
theorem WellFormed.induction (wellFormed : graph.WellFormed) {motive : Handle → Pattern → Prop}
    (step : ∀ ⦃handle entry⦄, graph.entry? handle = some entry →
      (∀ ⦃operand known⦄, operand ∈ entry.node.operands → graph.pattern operand = .ok known → motive operand known) →
      motive handle entry.pattern)
    {known : Pattern} (found : graph.pattern handle = .ok known) : motive handle known := by
  generalize sameIndex : handle.index = index
  induction index using Nat.strongRecOn generalizing handle known with
  | ind index ih =>
      rcases pattern_eq_ok.mp found with ⟨entry, isEntry, rfl⟩
      exact step isEntry fun operand _ member isKnown =>
        ih operand.index (sameIndex ▸ (wellFormed isEntry).below operand member) isKnown rfl

theorem WellFormed.patterns (wellFormed : graph.WellFormed) {patterns : List Pattern}
    (found : List.Forall₂ (fun part pattern => graph.pattern part = .ok pattern) parts patterns) :
    ∀ pattern ∈ patterns, pattern.WellFormed := by
  intro part member
  rcases List.mem_iff_getElem?.mp member with ⟨index, isPart⟩
  rcases forall₂_getElem? found.flip isPart with ⟨handle, _, isKnown⟩
  exact wellFormed.pattern isKnown

theorem WellFormed.concatenates (wellFormed : graph.WellFormed) {kind : ConcatKind} {patterns : List Pattern}
    {combined : Pattern × List Pattern.PartEntry}
    (found : List.Forall₂ (fun part pattern => graph.pattern part = .ok pattern) parts patterns)
    (concatenated : Pattern.concat kind patterns = .ok combined) :
    Pattern.Concatenates kind patterns combined.1 combined.2 :=
  Pattern.concat_concatenates concatenated (wellFormed.patterns found)

theorem WellFormed.of_entries {before after : Graph} (wellFormed : before.WellFormed)
    (same : after.entries = before.entries) : after.WellFormed := by
  intro index entry found
  rw [same] at found
  have sound := wellFormed found
  refine ⟨sound.wellFormed, sound.below, sound.derived.imp_right fun derived => derived.mono ?_⟩
  intro handle known isKnown
  rw [pattern_eq_ok] at isKnown ⊢
  rwa [same]

theorem getElem?_addReferences {entries : Array Entry} {operands : List Handle} {index : Nat}
    (found : (addReferences entries operands)[index]? = some entry) :
    ∃ old, entries[index]? = some old ∧ old.node = entry.node ∧ old.pattern = entry.pattern := by
  induction operands generalizing entries with
  | nil => exact ⟨entry, found, rfl, rfl⟩
  | cons operand operands ih =>
      rcases ih found with ⟨middle, isMiddle, sameNode, samePattern⟩
      rw [Array.getElem?_modify] at isMiddle
      split at isMiddle
      · rcases Option.map_eq_some_iff.mp isMiddle with ⟨old, isOld, rfl⟩
        exact ⟨old, isOld, sameNode, samePattern⟩
      · exact ⟨middle, isMiddle, sameNode, samePattern⟩

@[simp] theorem size_addReferences (entries : Array Entry) (operands : List Handle) :
    (addReferences entries operands).size = entries.size := by
  induction operands generalizing entries with
  | nil => rfl
  | cons operand operands ih => exact (ih _).trans (Array.size_modify ..)

theorem getElem?_append {pattern : Pattern} {index : Nat}
    (found : (graph.append node pattern).2.entries[index]? = some entry) :
    (∃ old, graph.entries[index]? = some old ∧ old.node = entry.node ∧
        old.pattern = entry.pattern) ∨
      (index = graph.size ∧ node = entry.node ∧ pattern = entry.pattern) := by
  simp only [append, Array.getElem?_push, size_addReferences] at found
  split at found
  · rename_i isLast
    cases found
    exact .inr ⟨isLast, rfl, rfl⟩
  · exact .inl (getElem?_addReferences found)

def HasNode (graph : Graph) (handle : Handle) (node : Node) (pattern : Pattern) : Prop :=
  ∃ entry, graph.entries[handle.index]? = some entry ∧ entry.node = node ∧ entry.pattern = pattern

theorem HasNode.pattern_eq {pattern : Pattern} (hasNode : graph.HasNode handle node pattern) :
    graph.pattern handle = .ok pattern := by
  rcases hasNode with ⟨entry, found, _, samePattern⟩
  exact pattern_eq_ok.mpr ⟨entry, found, samePattern⟩

theorem exists_hasNode {pattern : Pattern} (known : graph.pattern handle = .ok pattern) :
    ∃ node, graph.HasNode handle node pattern := by
  rcases pattern_eq_ok.mp known with ⟨entry, found, samePattern⟩
  exact ⟨entry.node, entry, found, rfl, samePattern⟩

theorem HasNode.append {pattern : Pattern} (hasNode : graph.HasNode handle node pattern) (newNode : Node)
    (newPattern : Pattern) :
    (graph.append newNode newPattern).2.HasNode handle node pattern := by
  rcases hasNode with ⟨old, isOld, rfl, rfl⟩
  have inside := (Array.getElem?_eq_some_iff.mp isOld).1
  have stillInside : handle.index < (graph.append newNode newPattern).2.entries.size := by
    simp only [Graph.append, Array.size_push, size_addReferences]
    omega
  rcases getElem?_append (Array.getElem?_eq_getElem stillInside) with
    ⟨other, isOther, sameNode, samePattern⟩ | ⟨isNew, _⟩
  · rw [isOld] at isOther
    cases isOther
    exact ⟨_, Array.getElem?_eq_getElem stillInside, sameNode.symm, samePattern.symm⟩
  · simp only [size] at isNew
    omega

theorem pattern_append (node : Node) (pattern : Pattern) {known : Pattern}
    (found : graph.pattern handle = .ok known) :
    (graph.append node pattern).2.pattern handle = .ok known := by
  rcases exists_hasNode found with ⟨_, hasNode⟩
  exact (hasNode.append node pattern).pattern_eq

theorem WellFormed.append (wellFormed : graph.WellFormed) {pattern : Pattern} (patternWellFormed : pattern.WellFormed)
    (below : ∀ operand ∈ node.operands, operand.index < graph.size)
    (derived : node.isSymbol ∨ graph.Derived node pattern) :
    (graph.append node pattern).2.WellFormed := by
  intro index entry found
  rcases getElem?_append found with ⟨old, isOld, sameNode, samePattern⟩ | ⟨rfl, rfl, rfl⟩
  · have sound := wellFormed isOld
    refine ⟨samePattern ▸ sound.wellFormed, sameNode ▸ sound.below, ?_⟩
    rw [← sameNode, ← samePattern]
    exact sound.derived.imp_right fun derived => derived.mono fun _ _ => pattern_append node pattern
  · exact ⟨patternWellFormed, below,
      derived.imp_right fun derived => derived.mono fun _ _ => pattern_append _ _⟩

theorem WellFormed.insert (wellFormed : graph.WellFormed) {pattern : Pattern} (derived : graph.Derived node pattern) :
    (graph.insert node pattern).2.WellFormed := by
  rw [Graph.insert]
  split
  · exact wellFormed
  · have below : ∀ operand ∈ node.operands, operand.index < graph.size := by
      intro operand member
      rcases derived.operand_found operand member with ⟨known, found⟩
      rcases pattern_eq_ok.mp found with ⟨entry, isEntry, _⟩
      exact (Array.getElem?_eq_some_iff.mp isEntry).1
    exact (wellFormed.append (derived.wellFormed fun _ _ => wellFormed.pattern) below
      (.inr derived)).of_entries rfl

/-- The form in which the constructors add nodes: a commutative operation has its operands in order, a
concatenation has several parts, and what is transposed is neither a transpose nor 1x1. -/
def Canonical (graph : Graph) : Node → Prop
  | .binary op lhs rhs => op.isCommutative → lhs.index ≤ rhs.index
  | .concat _ parts => 2 ≤ parts.length
  | .transpose operand => ∃ node pattern, graph.HasNode operand node pattern ∧
      (∀ inner, node ≠ .transpose inner) ∧ pattern.isScalar = false
  | _ => True

/-- A property that lasts while nodes in canonical form are added with the patterns that are derived for them,
and symbols with any well-formed pattern. -/
structure Lasts (property : Graph → Prop) : Prop where
  insert : ∀ ⦃graph : Graph⦄ ⦃node : Node⦄ ⦃pattern : Pattern⦄, property graph →
    graph.derive node = .ok pattern → graph.Canonical node → property (graph.insert node pattern).2
  symbol : ∀ ⦃graph : Graph⦄ (name : String) ⦃pattern : Pattern⦄, property graph →
    pattern.WellFormed → property (graph.appendSymbol name pattern).2

theorem lasts_wellFormed : Lasts WellFormed where
  insert _ _ _ wellFormed derived _ := wellFormed.insert (derived_of_derive derived)
  symbol graph name pattern wellFormed patternWellFormed := by
    have named : WellFormed { graph with symbolNames := graph.symbolNames.push name } :=
      wellFormed.of_entries rfl
    exact named.append patternWellFormed (by simp [Node.operands]) (.inl rfl)

theorem Lasts.initial {property : Graph → Prop} (lasts : Lasts property) (empty : property {}) :
    property initial :=
  lasts.insert (lasts.insert (lasts.insert empty rfl trivial) rfl trivial) rfl trivial

theorem wellFormed_initial : initial.WellFormed := by
  apply lasts_wellFormed.initial
  intro index entry found
  simp at found

theorem insert_of_absent (pattern : Pattern) (absent : graph.interned[node]? = none) :
    (graph.insert node pattern).2 =
      ⟨(addReferences graph.entries node.operands.eraseDups).push ⟨node, pattern, 0⟩,
        graph.interned.insert node ⟨graph.size⟩, graph.symbolNames⟩ := by
  rw [insert, absent]
  rfl

/-- What every graph starts with; which numbers the literals are is left open. -/
theorem initial_eq : ∃ (zero one two : Float) (interned : Std.HashMap Node Handle),
    initial = ⟨#[⟨.constant zero, .scalar, 0⟩, ⟨.constant one, .scalar, 0⟩,
      ⟨.constant two, .scalar, 0⟩], interned, #[]⟩ ∧
    ∀ node : Node, node.operands ≠ [] → interned[node]? = none := by
  have zeroOne : (0.0 : Float) ≠ 1.0 := by decide
  have zeroTwo : (0.0 : Float) ≠ 2.0 := by decide
  have oneTwo : (1.0 : Float) ≠ 2.0 := by decide
  have start : initial.entries = #[⟨.constant 0.0, .scalar, 0⟩, ⟨.constant 1.0, .scalar, 0⟩,
      ⟨.constant 2.0, .scalar, 0⟩] ∧ initial.symbolNames = #[] ∧
      ∀ node : Node, node.operands ≠ [] → initial.interned[node]? = none := by
    refine ⟨?_, ?_, fun node operands => ?_⟩
    · simp [initial, insert, append, addReferences, Node.operands, zeroOne, zeroTwo, oneTwo]
    · simp [initial, insert, append, addReferences, Node.operands, zeroOne, zeroTwo, oneTwo]
    · have different : ∀ literal, Node.constant literal ≠ node := by
        rintro literal rfl
        exact operands rfl
      simp [initial, insert, append, addReferences, zeroOne, zeroTwo, oneTwo, different]
  revert start
  rcases initial with ⟨entries, interned, names⟩
  rintro ⟨rfl, rfl, absent⟩
  exact ⟨0.0, 1.0, 2.0, interned, rfl, absent⟩

end Graph

/-! ## Calls -/

namespace GraphM

variable {α β : Type} {property : Graph → Prop}

def graphAfter (call : GraphM α) (graph : Graph) : Graph :=
  (call.run.run graph).2

/-- A call keeps a property of the graph, whether it succeeds or fails. -/
def Keeps (property : Graph → Prop) (call : GraphM α) : Prop :=
  ∀ ⦃graph⦄, property graph → property (call.graphAfter graph)

theorem Keeps.pure (value : α) : Keeps property (pure value : GraphM α) :=
  fun _ holds => holds

theorem Keeps.throw (cause : Error) : Keeps property (throw cause : GraphM α) :=
  fun _ holds => holds

theorem Keeps.get : Keeps property (get : GraphM Graph) :=
  fun _ holds => holds

theorem Keeps.lift (computed : Except Error α) : Keeps property (liftM computed : GraphM α) := by
  intro graph holds
  cases computed <;> exact holds

theorem Keeps.bind {first : GraphM α} {next : α → GraphM β} (keepsFirst : Keeps property first)
    (keepsNext : ∀ value, Keeps property (next value)) : Keeps property (first >>= next) := by
  intro graph holds
  have after := keepsFirst holds
  simp only [graphAfter, ExceptT.run_bind, StateT.run_bind] at after ⊢
  rcases ran : first.run.run graph with ⟨_ | value, middle⟩
  · rw [ran] at after
    exact after
  · rw [ran] at after
    exact keepsNext value after

theorem holds_get_bind {next : Graph → GraphM β} (holds : property ((next graph).graphAfter graph)) :
    property ((get >>= next : GraphM β).graphAfter graph) :=
  holds

variable {computed : Except Error α}

theorem holds_lift_bind (holds : property graph) {next : α → GraphM β}
    (keeps : ∀ value, computed = .ok value → property ((next value).graphAfter graph)) :
    property (((liftM computed : GraphM α) >>= next).graphAfter graph) := by
  rcases computed with cause | value
  · exact holds
  · exact keeps value rfl

theorem Keeps.lift_bind {next : α → GraphM β} (keeps : ∀ value, computed = .ok value → Keeps property (next value)) :
    Keeps property ((liftM computed : GraphM α) >>= next) :=
  fun _ holds => holds_lift_bind holds fun value found => keeps value found holds

/-! ## Calls from their parts -/

/-- A judgement about calls that can be read off their parts. -/
structure Logic (holds : {α : Type} → GraphM α → Prop) : Prop where
  pure : ∀ {α : Type} (value : α), holds (Pure.pure value : GraphM α)
  throw : ∀ {α : Type} (cause : Error), holds (MonadExcept.throw cause : GraphM α)
  lift : ∀ {α : Type} (computed : Except Error α), holds (liftM computed : GraphM α)
  bind : ∀ {α β : Type} {first : GraphM α} {next : α → GraphM β}, holds first →
    (∀ value, holds (next value)) → holds (first >>= next)
  check : ∀ handle, holds (GraphM.check handle)
  pattern : ∀ handle, holds (GraphM.pattern handle)
  add : ∀ {node : Node}, (∀ graph : Graph, graph.Canonical node) → holds (GraphM.add node)

namespace Logic

variable {holds : {α : Type} → GraphM α → Prop} (logic : Logic holds)
include logic

theorem mapM {elements : List α} {call : α → GraphM β} (each : ∀ element, holds (call element)) :
    holds (elements.mapM call) := by
  induction elements with
  | nil => exact logic.pure []
  | cons element elements ih =>
      rw [List.mapM_cons]
      exact logic.bind (each element) fun _ => logic.bind ih fun _ => logic.pure _

theorem forM {elements : List α} {call : α → GraphM PUnit} (each : ∀ element, holds (call element)) :
    holds (elements.forM call) := by
  induction elements with
  | nil => exact logic.pure PUnit.unit
  | cons element elements ih => exact logic.bind (each element) fun _ => ih

theorem foldlM {step : β → α → GraphM β} (each : ∀ state element, holds (step state element))
    (elements : List α) (state : β) : holds (elements.foldlM step state) := by
  induction elements generalizing state with
  | nil => exact logic.pure state
  | cons element elements ih =>
      rw [List.foldlM_cons]
      exact logic.bind (each state element) fun next => ih next

theorem check_then {condition : Prop} [Decidable condition] {cause : Error} {next : PUnit → GraphM α}
    (rest : holds (next ⟨⟩)) :
    holds (if condition then (MonadExcept.throw cause : GraphM PUnit) >>= next else next ⟨⟩) := by
  split
  · exact logic.bind (logic.throw cause) fun _ => rest
  · exact rest

/-! ## Constructors -/

theorem constant (value : Float) : holds (GraphM.constant value) :=
  logic.add fun _ => trivial

theorem zeros (nrow ncol : Nat) : holds (GraphM.zeros nrow ncol) :=
  logic.add fun _ => trivial

theorem unary (op : Opcode) (operand : Handle) : holds (GraphM.unary op operand) := by
  rcases op with _ | op | op
  · exact logic.throw _
  · exact logic.add fun _ => trivial
  · exact logic.throw _

theorem concat (kind : ConcatKind) (parts : List Handle) : holds (GraphM.concat kind parts) := by
  refine logic.bind (logic.forM logic.check) fun _ => ?_
  rcases parts with _ | ⟨first, _ | ⟨second, parts⟩⟩
  · exact logic.zeros 0 0
  · exact logic.pure _
  · exact logic.add fun _ => Nat.le_add_left ..

theorem addSorted (op : BinaryOp) (lhs rhs : Handle) :
    holds (GraphM.add (.binary op (sortOperands op lhs rhs).1 (sortOperands op lhs rhs).2)) := by
  apply logic.add
  intro _ commutative
  rw [sortOperands, commutative, Bool.true_and]
  split
  · rename_i swapped
    exact Nat.le_of_lt (of_decide_eq_true swapped)
  · rename_i ordered
    exact Nat.le_of_not_lt fun less => ordered (decide_eq_true less)

theorem binary (op : Opcode) (lhs rhs : Handle) : holds (GraphM.binary op lhs rhs) := by
  rcases op with _ | op | op
  · exact logic.throw _
  · exact logic.throw _
  · exact logic.bind (logic.check lhs) fun _ => logic.bind (logic.check rhs) fun _ => logic.addSorted op lhs rhs

theorem scalarBinary (op : BinaryOp) (lhs rhs : Handle) : holds (GraphM.scalarBinary op lhs rhs) := by
  refine logic.bind (logic.pattern lhs) fun left => logic.bind (logic.pattern rhs) fun right => ?_
  apply logic.check_then
  exact logic.addSorted op lhs rhs

theorem nonzero (operand : Handle) (index : Nat) : holds (GraphM.nonzero operand index) := by
  refine logic.bind (logic.check operand) fun _ => logic.bind (logic.pattern operand) fun _ => ?_
  split
  · exact logic.pure _
  · exact logic.add fun _ => trivial

theorem nonzeros (operand : Handle) : holds (GraphM.nonzeros operand) :=
  logic.bind (logic.pattern operand) fun _ => logic.mapM fun index => logic.nonzero operand index

theorem assembleCell (pattern : Pattern) (entries : Array Handle) (row column : Nat) :
    holds (GraphM.assembleCell pattern entries row column) := by
  rw [GraphM.assembleCell]
  split
  · exact logic.zeros 1 1
  · split
    · exact logic.pure _
    · exact logic.throw _

theorem assembleColumn (pattern : Pattern) (entries : Array Handle) (column : Nat) :
    holds (GraphM.assembleColumn pattern entries column) := by
  refine logic.bind (logic.lift _) fun _ => logic.bind (logic.mapM fun row => ?_) fun _ => ?_
  · exact logic.assembleCell pattern entries row column
  · split
    · exact logic.zeros 0 1
    · exact logic.concat ..

theorem assemble (pattern : Pattern) (entries : List Handle) : holds (GraphM.assemble pattern entries) := by
  rw [GraphM.assemble]
  apply logic.check_then
  refine logic.bind (logic.mapM fun column => logic.assembleColumn ..) fun _ => ?_
  split
  · exact logic.zeros _ 0
  · exact logic.concat ..

end Logic

/-! ## What lasts is kept -/

section Lasting

variable (lasts : Graph.Lasts property)
include lasts

theorem holds_add (holds : property graph) (canonical : graph.Canonical node) :
    property ((add node).graphAfter graph) := by
  have ran : (add node).graphAfter graph = match graph.derive node with
      | .ok pattern => (graph.insert node pattern).2
      | .error _ => graph := by
    have inserted : ∀ computed : Except Error Pattern,
        (do
          let pattern ← (liftM computed : GraphM Pattern)
          modifyGet fun graph => graph.insert node pattern : GraphM Handle).graphAfter graph =
        match computed with
        | .ok pattern => (graph.insert node pattern).2
        | .error _ => graph := by
      intro computed
      cases computed <;> rfl
    exact inserted (graph.derive node)
  rw [ran]
  split
  · rename_i pattern derived
    exact lasts.insert holds derived canonical
  · exact holds

theorem logic_keeps : Logic (Keeps property) where
  pure := .pure
  throw := .throw
  lift := .lift
  bind := .bind
  check _ := Keeps.get.bind fun _ => .lift _
  pattern _ := Keeps.get.bind fun _ => .lift _
  add canonical graph holds := holds_add lasts holds (canonical graph)

theorem keeps_symbol (name : String) {pattern : Pattern} (patternWellFormed : pattern.WellFormed) :
    Keeps property (symbol name pattern) :=
  fun _ holds => lasts.symbol name holds patternWellFormed

theorem keeps_transpose (operand : Handle) : Keeps property (transpose operand) := by
  -- What is transposed is looked up in the graph to which the transpose is added.
  intro graph holds
  refine holds_get_bind (holds_lift_bind holds fun entry looked => ?_)
  split
  · exact holds
  · rename_i notTranspose
    split
    · exact holds
    · rename_i notScalar
      have hasNode : graph.HasNode operand entry.node entry.pattern :=
        ⟨entry, Graph.entry_eq_ok.mp looked, rfl, rfl⟩
      exact holds_add lasts holds ⟨_, _, hasNode, notTranspose, Bool.not_eq_true _ ▸ notScalar⟩

end Lasting

/-- The constructors of expressions. A symbol may have any well-formed pattern. -/
inductive Constructs : {α : Type} → GraphM α → Prop where
  | symbol (name : String) {pattern : Pattern} (wellFormed : pattern.WellFormed) :
      Constructs (symbol name pattern)
  | scalarSymbol (name : String) : Constructs (scalarSymbol name)
  | vectorSymbol (name : String) (length : Nat) : Constructs (vectorSymbol name length)
  | matrixSymbol (name : String) (nrow ncol : Nat) : Constructs (matrixSymbol name nrow ncol)
  | constant (value : Float) : Constructs (constant value)
  | zeros (nrow ncol : Nat) : Constructs (zeros nrow ncol)
  | unary (op : Opcode) (operand : Handle) : Constructs (unary op operand)
  | binary (op : Opcode) (lhs rhs : Handle) : Constructs (binary op lhs rhs)
  | scalarBinary (op : BinaryOp) (lhs rhs : Handle) : Constructs (scalarBinary op lhs rhs)
  | concat (kind : ConcatKind) (parts : List Handle) : Constructs (concat kind parts)
  | transpose (operand : Handle) : Constructs (transpose operand)
  | nonzero (operand : Handle) (index : Nat) : Constructs (nonzero operand index)
  | nonzeros (operand : Handle) : Constructs (nonzeros operand)
  | assemble (pattern : Pattern) (entries : List Handle) : Constructs (assemble pattern entries)

theorem Constructs.keeps {call : GraphM α} (constructs : Constructs call)
    (lasts : Graph.Lasts property) : Keeps property call := by
  cases constructs with
  | symbol name wellFormed => exact keeps_symbol lasts name wellFormed
  | scalarSymbol name => exact keeps_symbol lasts name Pattern.wellFormed_scalar
  | vectorSymbol name length =>
      refine .lift_bind fun pattern derived => keeps_symbol lasts name ?_
      exact Pattern.eq_full_of_dense derived ▸ Pattern.wellFormed_full _ _
  | matrixSymbol name nrow ncol =>
      refine .lift_bind fun pattern derived => keeps_symbol lasts name ?_
      exact Pattern.eq_full_of_dense derived ▸ Pattern.wellFormed_full _ _
  | constant value => exact (logic_keeps lasts).constant value
  | zeros nrow ncol => exact (logic_keeps lasts).zeros nrow ncol
  | unary op operand => exact (logic_keeps lasts).unary op operand
  | binary op lhs rhs => exact (logic_keeps lasts).binary op lhs rhs
  | scalarBinary op lhs rhs => exact (logic_keeps lasts).scalarBinary op lhs rhs
  | concat kind parts => exact (logic_keeps lasts).concat kind parts
  | transpose operand => exact keeps_transpose lasts operand
  | nonzero operand index => exact (logic_keeps lasts).nonzero operand index
  | nonzeros operand => exact (logic_keeps lasts).nonzeros operand
  | assemble pattern entries => exact (logic_keeps lasts).assemble pattern entries

end GraphM

/-- The graphs that the constructors of expressions make out of the initial one. Nodes that were added
before a failure stay, so a failed call leads to a reachable graph too. -/
inductive Graph.Reachable : Graph → Prop where
  | initial : Reachable .initial
  | after {graph : Graph} (reachable : Reachable graph) {α : Type} {call : GraphM α}
      (constructs : call.Constructs) : Reachable (call.graphAfter graph)

theorem Graph.Reachable.of_lasts {property : Graph → Prop} (lasts : Lasts property) (initial : property .initial)
    (reachable : graph.Reachable) : property graph := by
  induction reachable with
  | initial => exact initial
  | after _ constructs holds => exact constructs.keeps lasts holds

theorem Graph.Reachable.wellFormed (reachable : graph.Reachable) :
    graph.WellFormed :=
  reachable.of_lasts lasts_wellFormed wellFormed_initial

end Autodiff
