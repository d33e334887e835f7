import Autodiff.Proofs.Session.PatternSoundness
import Autodiff.Proofs.Session.Transposition
import Autodiff.Proofs.Symbolic.Assembly
import Autodiff.Proofs.Symbolic.Differentiation

/-!
# Expressions for Jacobians

The entries of a Jacobian are read off symbolic sweeps in unit directions, by columns or by rows, and put together
with the propagated pattern. Where the pattern stores nothing no data flows, so nothing is lost: the expression
denotes the whole Jacobian (`completes_jacobianExpr`). Over an ordered field this is the Jacobian that sessions
compute.
-/

namespace Autodiff

/-! ## Entries of a block -/

section Entries

variable {α : Type} [Zero α] {inputs outputs : List Block}

/-- An entry of one block of a matrix, zero outside. -/
def blockEntry (jacobian : Matrix (BlockEntry outputs) (BlockEntry inputs) α) (iind : Fin inputs.length)
    (oind : Fin outputs.length) (row column : Nat) : α :=
  (entryOfRow? (blockRows jacobian iind oind) row column).getD 0

theorem blockEntry_eq (jacobian : Matrix (BlockEntry outputs) (BlockEntry inputs) α)
    (output : BlockEntry outputs) (input : BlockEntry inputs) :
    blockEntry jacobian input.1 output.1 output.2 input.2 = jacobian output input := by
  rw [blockEntry, entryOfRow?_blockRows]
  rfl

theorem entryOfRow?_eq_blockEntry (jacobian : Matrix (BlockEntry outputs) (BlockEntry inputs) α)
    {iind : Fin inputs.length} {oind : Fin outputs.length} {row column : Nat}
    (rowInside : row < (outputs.get oind).slots.length)
    (columnInside : column < (inputs.get iind).slots.length) :
    entryOfRow? (blockRows jacobian iind oind) row column =
      some (blockEntry jacobian iind oind row column) := by
  rw [blockEntry, entryOfRow?_blockRows jacobian ⟨oind, ⟨row, rowInside⟩⟩ ⟨iind, ⟨column, columnInside⟩⟩]
  rfl

end Entries

theorem Graph.Supplies.shaped {K : Type} [Zero K] {graph : Graph} {blocks : List Block}
    {inputs : List Handle} (supplies : graph.Supplies blocks inputs) (meaning : Meaning K)
    (assignment : Handle → List K) :
    Session.Shaped blocks (inputs.map (graph.storedValues meaning assignment)) := by
  rw [Session.Shaped, List.forall₂_map_right_iff]
  refine supplies.imp fun block input => ?_
  rintro ⟨pattern, known, sameLength⟩
  rw [Graph.storedValues_eq known, List.length_map, pattern.length_positions, sameLength]

theorem Reading.DenotesSeed.shaped_of_entries {K : Type} [Zero K] {reading : Reading K} {world : World}
    {seed : Seed Handle} {entries : Seed K} (denotes : reading.DenotesSeed world seed entries)
    {blocks : List Block} (shaped : Session.Shaped blocks entries) : Session.Shaped blocks seed := by
  refine (forall₂_trans shaped denotes.flip).imp fun block handles => ?_
  rintro ⟨elements, sameLength, related⟩
  exact related.length_eq.trans sameLength

/-! ## Sensitivities to single entries -/

namespace Tape

variable {K : Type} [CommSemiring K] {tape : Tape} {record : Record K}

theorem directionEntry_columns (valid : tape.Valid) (records : tape.Records record)
    (output : BlockEntry tape.outputs) (input : BlockEntry tape.inputs) :
    directionEntry (((List.range (tape.inputs.get input.1).slots.length).map fun entry =>
        unitSeed 0 1 tape.inputs input.1 [entry]).map ((Arithmetic.linear K).pushedSeed tape record))
      input.2 output.1 output.2 =
        .ok (blockEntry (tape.sensitivity record) input.1 output.1 output.2 input.2) := by
  rw [blockEntry_eq, directionEntry, List.map_map, List.getElem?_map, List.getElem?_range input.2.isLt,
    ← RunsTo.forwardJacobian_linear valid records]
  exact Seed.entry_ofVector ((Arithmetic.linear K).jointColumn 1 tape record input.1 [input.2.val]) output

theorem directionEntry_rows (valid : tape.Valid) (records : tape.Records record)
    (output : BlockEntry tape.outputs) (input : BlockEntry tape.inputs) :
    directionEntry (((List.range (tape.outputs.get output.1).slots.length).map fun entry =>
        unitSeed 0 1 tape.outputs output.1 [entry]).map ((Arithmetic.linear K).pulledSeed tape record))
      output.2 input.1 input.2 =
        .ok (blockEntry (tape.sensitivity record) input.1 output.1 output.2 input.2) := by
  rw [blockEntry_eq, directionEntry, List.map_map, List.getElem?_map, List.getElem?_range output.2.isLt,
    ← RunsTo.reverseJacobian_linear valid records]
  exact Seed.entry_ofVector ((Arithmetic.linear K).jointRow 1 tape record output.1 [output.2.val]) input

theorem sensitivity_eq_zero (valid : tape.Valid) (records : tape.Records record)
    {output : BlockEntry tape.outputs} {input : BlockEntry tape.inputs}
    (apart : ¬Passes tape.instructions input.slot output.slot) :
    tape.sensitivity record output input = 0 := by
  have known : (Arithmetic.linear K).isZero (Arithmetic.linear K).zero = true := by
    simp [Arithmetic.linear]
  rw [← RunsTo.forwardJacobian_linear valid records]
  exact Arithmetic.forwardJacobian_eq_zero known records apart

section Flow

variable {iind : Fin tape.inputs.length} {oind : Fin tape.outputs.length} {pattern : Pattern}
  (represents : pattern.Represents
    ((tape.outputs.get oind).slots.length, (tape.inputs.get iind).slots.length)
    (tape.EntryFlows (tape.inputs.get iind) (tape.outputs.get oind)))
  {row column : Nat} (rowInside : row < (tape.outputs.get oind).slots.length)
  (columnInside : column < (tape.inputs.get iind).slots.length)
include represents rowInside columnInside

theorem blockEntry_eq_zero (valid : tape.Valid) (records : tape.Records record)
    (absent : (row, column) ∉ pattern.positions) :
    blockEntry (tape.sensitivity record) iind oind row column = 0 := by
  let output : BlockEntry tape.outputs := ⟨oind, ⟨row, rowInside⟩⟩
  let input : BlockEntry tape.inputs := ⟨iind, ⟨column, columnInside⟩⟩
  have apart : ¬Passes tape.instructions input.slot output.slot := fun passes =>
    absent ((represents.mem_iff row column).mpr (entryFlows_iff.mpr passes))
  exact (blockEntry_eq _ output input).trans (sensitivity_eq_zero valid records apart)

/-- The stored entries make up the whole block. -/
theorem get_scatter_sensitivity (valid : tape.Valid) (records : tape.Records record) :
    (pattern.scatter (pattern.positions.map fun position =>
        blockEntry (tape.sensitivity record) iind oind position.1 position.2)).get row column =
      blockEntry (tape.sensitivity record) iind oind row column := by
  by_cases stored : (row, column) ∈ pattern.positions
  · rcases List.mem_iff_getElem?.mp stored with ⟨index, isPosition⟩
    apply represents.wellFormed.get_scatter isPosition
    simp [isPosition]
  · rw [(pattern.scatter_supported _).absent stored,
      blockEntry_eq_zero represents rowInside columnInside valid records stored]

end Flow

end Tape

namespace Reading

section Units

variable {K : Type} [Zero K] {reading : Reading K} {world : World}

theorem denotesSeed_unitSeed {zero one : Handle} {element : K} (zeroDenotes : reading.Denotes world zero 0)
    (oneDenotes : reading.Denotes world one element) (blocks : List Block) (index : Nat) (chosen : List Nat) :
    reading.DenotesSeed world (unitSeed zero one blocks index chosen)
      (unitSeed 0 element blocks index chosen) := by
  simp only [DenotesSeed, unitSeed, List.forall₂_map_left_iff, List.forall₂_map_right_iff,
    List.forall₂_same]
  rintro ⟨block, number⟩ _ entry _
  dsimp only
  split
  · exact oneDenotes
  · exact zeroDenotes

theorem exists_directionEntry {found : List (Seed Handle)} {elements : List (Seed K)}
    (denotes : List.Forall₂ (reading.DenotesSeed world) found elements) {direction block index : Nat}
    {element : K} (isEntry : directionEntry elements direction block index = .ok element) :
    ∃ handle, directionEntry found direction block index = .ok handle ∧
      reading.Denotes world handle element := by
  rw [directionEntry] at isEntry
  split at isEntry
  · rename_i seed isSeed
    rcases forall₂_getElem? denotes.flip isSeed with ⟨handles, isHandles, seedDenotes⟩
    rw [Seed.entry] at isEntry
    split at isEntry
    · rename_i value isValue
      cases isEntry
      rcases Option.bind_eq_some_iff.mp isValue with ⟨values, isBlock, isElement⟩
      rcases forall₂_getElem? seedDenotes.flip isBlock with ⟨blockHandles, isBlockHandles, blockDenotes⟩
      rcases forall₂_getElem? blockDenotes.flip isElement with ⟨handle, isHandle, isDenoted⟩
      refine ⟨handle, ?_, isDenoted⟩
      rw [directionEntry, isHandles]
      simp [Seed.entry, isBlockHandles, isHandle]
    · cases isEntry
  · cases isEntry

theorem completes_directionEntries {found : List (Seed Handle)} {elements : List (Seed K)}
    (denotes : List.Forall₂ (reading.DenotesSeed world) found elements) {positions : List (Nat × Nat)}
    {direction index : Nat × Nat → Nat} {block : Nat} {element : Nat × Nat → K}
    (each : ∀ position ∈ positions, directionEntry elements (direction position) block (index position) =
      .ok (element position)) :
    Completes world
      (positions.mapM fun position =>
        liftM (directionEntry found (direction position) block (index position)))
      (positions.mapM fun position =>
        liftM (directionEntry found (direction position) block (index position)))
      fun world handles => List.Forall₂ (reading.Denotes world) handles (positions.map element) := by
  simp only [List.forall₂_map_right_iff]
  apply Completes.mapM_each fun handle position => Denotes.stays handle (element position)
  intro later grows position member
  rcases exists_directionEntry denotes (each position member) with ⟨handle, isEntry, isDenoted⟩
  exact .liftExcept isEntry (isDenoted.grow grows)

end Units

section Jacobians

variable {K : Type} [CommSemiring K] {reading : Reading K} {rules : DerivativeRules K} {world : World}
  {tape : Tape} {entries : Seed Handle} {point : Seed K}

theorem denotes_entrySeeds (lawful : reading.Lawful) (isOne : reading.meaning.literal 1 = 1)
    (blocks : List Block) (index count : Nat) :
    List.Forall₂ (reading.DenotesSeed world) (Tape.entrySeeds blocks index count)
      ((List.range count).map fun entry => unitSeed 0 1 blocks index [entry]) := by
  have oneDenotes : reading.Denotes world .one 1 := isOne ▸ denotes_one world
  simp only [Tape.entrySeeds, List.forall₂_map_left_iff, List.forall₂_map_right_iff, List.forall₂_same]
  exact fun entry _ => denotesSeed_unitSeed (denotes_zero lawful world) oneDenotes blocks index [entry]

theorem shaped_entrySeeds (blocks : List Block) (index count : Nat) :
    ∀ seed ∈ Tape.entrySeeds blocks index count, Session.Shaped blocks seed := by
  simp only [Tape.entrySeeds, List.forall_mem_map]
  exact fun entry _ => Seed.shaped_unitSeed _ _ _ _

variable (linear : reading.Linear) (derives : reading.Derives rules) (isOne : reading.meaning.literal 1 = 1)
  (valid : tape.Valid) (allowed : ∀ instruction ∈ tape.instructions, reading.vocabulary.AllowsOp instruction.op)
include linear derives isOne valid allowed

theorem completes_jacobianEntries (shaped : Session.Shaped tape.inputs entries)
    (denotes : reading.DenotesSeed world entries point) (iind : Fin tape.inputs.length)
    (oind : Fin tape.outputs.length) {pattern : Pattern}
    (inside : ∀ position ∈ pattern.positions, position.1 < (tape.outputs.get oind).slots.length ∧
      position.2 < (tape.inputs.get iind).slots.length) :
    Completes world
      (tape.jacobianEntries entries iind oind (tape.inputs.get iind).slots.length
        (tape.outputs.get oind).slots.length pattern)
      (tape.jacobianEntries entries iind oind (tape.inputs.get iind).slots.length
        (tape.outputs.get oind).slots.length pattern)
      fun world handles => List.Forall₂ (reading.Denotes world) handles
        (pattern.positions.map fun position => blockEntry (tape.sensitivity
          (recordAll rules reading.meaning tape.instructions (stored 0 tape.inputs point) []))
          iind oind position.1 position.2) := by
  have records := Tape.records_recordAll rules reading.meaning tape (stored 0 tape.inputs point)
  by_cases byColumns : (tape.inputs.get iind).slots.length ≤ (tape.outputs.get oind).slots.length
  · simp only [Tape.jacobianEntries, if_pos byColumns]
    apply (completes_forwardSymbolic (denotes_entrySeeds linear.toLawful isOne _ _ _) linear derives valid.bounded
      allowed shaped denotes (shaped_entrySeeds _ _ _)).bind
    intro later found _ foundDenotes
    apply completes_directionEntries foundDenotes.sensitivities
    intro position member
    rcases inside position member with ⟨rowInside, columnInside⟩
    exact Tape.directionEntry_columns valid records ⟨oind, _, rowInside⟩ ⟨iind, _, columnInside⟩
  · simp only [Tape.jacobianEntries, if_neg byColumns]
    apply (completes_reverseSymbolic (denotes_entrySeeds linear.toLawful isOne _ _ _) linear derives valid.bounded
      allowed shaped denotes (shaped_entrySeeds _ _ _)).bind
    intro later found _ foundDenotes
    apply completes_directionEntries foundDenotes.sensitivities
    intro position member
    rcases inside position member with ⟨rowInside, columnInside⟩
    exact Tape.directionEntry_rows valid records ⟨oind, _, rowInside⟩ ⟨iind, _, columnInside⟩

/-- The expression for a Jacobian has the propagated pattern, and its entries are the sensitivities of the
outputs to the inputs. -/
theorem completes_jacobianExpr {inputs : List Handle} (supplies : world.graph.Supplies tape.inputs inputs)
    (spelled : ∀ input ∈ inputs, world.graph.Spelled reading.vocabulary input) (iind : Fin tape.inputs.length)
    (oind : Fin tape.outputs.length) (fits : (tape.outputs.get oind).slots.length ≤ maxBuffer) {pattern : Pattern}
    (found : tape.jacobianPattern iind oind = .ok pattern) :
    Completes world (tape.jacobianExpr inputs iind oind) (tape.jacobianExpr inputs iind oind)
      fun later handle => reading.Shows later handle pattern.shape
        (fun row column => (row, column) ∈ pattern.positions)
        (blockEntry (tape.sensitivity (recordAll rules reading.meaning tape.instructions
          (stored 0 tape.inputs
            (inputs.map (world.graph.storedValues reading.meaning reading.assignment))) [])) iind oind) := by
  have records := Tape.records_recordAll rules reading.meaning tape (stored 0 tape.inputs
    (inputs.map (world.graph.storedValues reading.meaning reading.assignment)))
  rcases valid.bounded.exists_jacobianPattern iind oind with ⟨other, isOther, represents⟩
  cases found.symm.trans isOther
  apply Completes.liftExcept_bind (tape.block_input iind)
  apply Completes.liftExcept_bind (tape.block_output oind)
  apply (succeeds_inputEntries supplies spelled).completes_bind
  intro first entries growsFirst entriesDenote
  apply Completes.liftExcept_bind found
  have shaped := entriesDenote.shaped_of_entries (supplies.shaped reading.meaning reading.assignment)
  have inside : ∀ position ∈ pattern.positions, position.1 < (tape.outputs.get oind).slots.length ∧
      position.2 < (tape.inputs.get iind).slots.length := by
    intro position member
    exact represents.lt_of_stores ((represents.mem_iff position.1 position.2).mp member)
  apply (completes_jacobianEntries linear derives isOne valid allowed shaped entriesDenote iind oind inside).bind
  intro second handles growsSecond handlesDenote
  have sameLength : handles.length = pattern.nnz := by
    rw [handlesDenote.length_eq, List.length_map, pattern.length_positions]
  have fitsPattern : pattern.nrow ≤ maxBuffer := represents.nrow_eq ▸ fits
  apply (succeeds_assemble represents.wellFormed handlesDenote sameLength (.inr fitsPattern)).mono
  intro later handle _ shown
  apply shown.congr (fun _ _ => Iff.rfl)
  intro row column rowInside columnInside
  rw [represents.shape_eq] at rowInside columnInside
  exact Tape.get_scatter_sensitivity represents rowInside columnInside valid records

end Jacobians

end Reading

/-! ## Jacobians over ordered fields -/

attribute [-instance] Scalar.toAdd Scalar.toSub Scalar.toMul Scalar.toDiv Scalar.toNeg

section Agreement

variable {K : Type} [Field K] [LinearOrder K] [IsStrictOrderedRing K] {scalar : Scalar K}
  {tape : Tape} {graph : Graph} {inputs : List Handle}

theorem Scalar.Ordered.exists_jacobianExpr (ordered : scalar.Ordered) (valid : tape.Valid)
    (sound : graph.Sound) (supplies : graph.Supplies tape.inputs inputs) (iind : Fin tape.inputs.length)
    (oind : Fin tape.outputs.length) (fits : (tape.outputs.get oind).slots.length ≤ maxBuffer)
    {pattern : Pattern} (found : tape.jacobianPattern iind oind = .ok pattern)
    (assignment : Handle → List K) :
    ∃ (handle : Handle) (final : World),
      (tape.jacobianExpr inputs iind oind : GraphM _).run.run graph = (.ok handle, final.graph) ∧
      ((∀ folding ∈ TracedM.foldings (tape.jacobianExpr inputs iind oind) graph,
          scalar.meaning.Folds folding) → (scalar.reading assignment).Exact final) ∧
      (scalar.reading assignment).Shows final handle pattern.shape
        (fun row column => (row, column) ∈ pattern.positions)
        (blockEntry (tape.sensitivity (recordAll scalar.derivativeRules scalar.meaning tape.instructions
          (stored 0 tape.inputs (inputs.map (graph.storedValues scalar.meaning assignment))) []))
          iind oind) := by
  let start : World := ⟨⟨graph, []⟩, sound⟩
  have spelled : ∀ input ∈ inputs, start.graph.Spelled .all input := by
    intro input member
    rcases exists_related supplies.flip member with ⟨block, _, inputPattern, known, _⟩
    exact sound.wellFormed.spelled_all known
  have startSupplies : start.graph.Supplies tape.inputs inputs := supplies
  exact (Reading.completes_jacobianExpr (ordered.linear assignment) (ordered.derives assignment)
    ordered.literal_one valid (fun instruction _ => Vocabulary.allowsOp_all instruction.op) startSupplies
    spelled iind oind fits found).exists_run (scalar.reading assignment)

end Agreement

/-- The expression for a Jacobian is the Jacobian, with exactly the propagated pattern. Take a valid tape, an
output block whose rows fit in memory, and expressions of a reachable graph with as many stored entries as the
input blocks have. The call succeeds with an expression whose pattern is the Jacobian pattern. Over every ordered
field, and provided that the foldings of this call are exact, its entries have under every assignment of the
symbols the values of the Jacobian that every session computes from the stored values of the inputs, and this
Jacobian is zero where the pattern stores nothing. -/
theorem Tape.jacobianExpr_eq_jacobian {tape : Tape} (checked : tape.validate = .ok ()) {graph : Graph}
    (reachable : graph.Reachable) {inputs : List Handle} (supplies : graph.Supplies tape.inputs inputs)
    (iind : Fin tape.inputs.length) (oind : Fin tape.outputs.length)
    (fits : (tape.outputs.get oind).slots.length ≤ maxBuffer) :
    ∃ (handle : Handle) (after : Graph) (pattern : Pattern),
      (tape.jacobianExpr inputs iind oind : GraphM _).run.run graph = (.ok handle, after) ∧
      tape.jacobianPattern iind oind = .ok pattern ∧ after.pattern handle = .ok pattern ∧
      pattern.shape = ((tape.outputs.get oind).slots.length, (tape.inputs.get iind).slots.length) ∧
      ∀ {K : Type} [Field K] [LinearOrder K] [IsStrictOrderedRing K] {scalar : Scalar K}, scalar.Ordered →
        (∀ folding ∈ TracedM.foldings (tape.jacobianExpr inputs iind oind) graph,
          scalar.meaning.Folds folding) →
        ∀ (assignment : Handle → List K) (options : EvalOptions) (work : Vector K tape.numSlots),
          ∃ rows : List (List K),
            ((Session.holding tape options (numbers options.domainPolicy) scalar.one work).perform
              (Session.jacobian (inputs.map (graph.storedValues scalar.meaning assignment)) iind oind)).1 =
              .ok rows ∧
            (∀ row column, (row, column) ∈ pattern.positions → entryOfRow? rows row column =
              some ((after.denote scalar.meaning assignment handle).get row column)) ∧
            ∀ row column, row < pattern.nrow → column < pattern.ncol →
              (row, column) ∉ pattern.positions → entryOfRow? rows row column = some 0 := by
  have valid := valid_of_validate checked
  rcases valid.bounded.exists_jacobianPattern iind oind with ⟨pattern, found, represents⟩
  -- The run does not depend on a field: the rational numbers show that it succeeds.
  have rational : (Scalar.ofField ℚ).Ordered := Scalar.ordered_ofField
  rcases rational.exists_jacobianExpr valid reachable.sound supplies iind oind fits found
    (fun _ => []) with ⟨handle, final, ran, _, stored⟩
  refine ⟨handle, final.graph, pattern, ran, found, stored.pattern_eq represents.wellFormed,
    represents.shape_eq, ?_⟩
  intro K _ _ _ scalar ordered exactFoldings assignment options work
  rcases ordered.exists_jacobianExpr valid reachable.sound supplies iind oind fits found assignment with
    ⟨sameHandle, sameFinal, ranAgain, isExact, shown⟩
  rcases Prod.mk.inj (ran.symm.trans ranAgain) with ⟨sameOutcome, sameGraph⟩
  cases Except.ok.inj sameOutcome
  rw [sameGraph]
  have runs := ordered.toExact.runsTo options.domainPolicy valid
    (supplies.shaped scalar.meaning assignment)
  have answers : Session.Answers tape options (numbers options.domainPolicy) (1 : K) _ _ :=
    runs.jacobian valid (ordered.toExact.numbers options.domainPolicy) iind oind
  rw [← ordered.one] at answers
  refine ⟨_, answers.outcome work, ?_, ?_⟩
  · intro row column member
    have inside := represents.lt_of_stores ((represents.mem_iff row column).mp member)
    have isEntry := shown.get_eq (isExact exactFoldings) row column
    rw [represents.shape_eq] at isEntry
    rw [entryOfRow?_eq_blockEntry _ inside.1 inside.2]
    exact congrArg some (isEntry inside.1 inside.2).symm
  · intro row column rowInside columnInside absent
    rw [represents.nrow_eq] at rowInside
    rw [represents.ncol_eq] at columnInside
    rw [entryOfRow?_eq_blockEntry _ rowInside columnInside,
      blockEntry_eq_zero represents rowInside columnInside valid runs.records absent]

set_option maxRecDepth 2048 in
/-- The derivative of a product whose first factor is one with respect to this factor. -/
theorem product_jacobianExpr : ∃ (handle : Handle) (after : Graph),
    (product.jacobianExpr [.one, ⟨3⟩] 0 0 : GraphM _).run.run Graph.symbolPair = (.ok handle, after) ∧
    product.jacobianPattern 0 0 = .ok .scalar ∧ after.pattern handle = .ok .scalar ∧
    ∀ (assignment : Handle → List ℚ) (options : EvalOptions) (work : Vector ℚ product.numSlots),
      ∃ rows : List (List ℚ),
        ((Session.holding product options (@numbers ℚ (.ofField ℚ) options.domainPolicy) 1 work).perform
          (Session.jacobian ([.one, ⟨3⟩].map
            (Graph.symbolPair.storedValues (Scalar.ofField ℚ).meaning assignment)) 0 0)).1 = .ok rows ∧
        entryOfRow? rows 0 0 =
          some ((after.denote (Scalar.ofField ℚ).meaning assignment handle).get 0 0) := by
  rcases Graph.symbolPair_eq with ⟨interned, same⟩
  have supplies : Graph.symbolPair.Supplies product.inputs [.one, ⟨3⟩] := by
    rw [same]
    exact .cons ⟨.scalar, rfl, rfl⟩ (.cons ⟨.scalar, rfl, rfl⟩ .nil)
  have propagated : product.jacobianPattern 0 0 = .ok .scalar := by cbv
  have unfolded : TracedM.foldings (product.jacobianExpr [.one, ⟨3⟩] 0 0) Graph.symbolPair = [] := by
    rw [same, Tape.jacobianExpr, propagated]
    rfl
  rcases Tape.jacobianExpr_eq_jacobian product_validate Graph.reachable_symbolPair supplies
    ⟨0, by decide⟩ ⟨0, by decide⟩ (by decide) with
    ⟨handle, after, pattern, ran, found, known, _, agrees⟩
  cases found.symm.trans propagated
  refine ⟨handle, after, ran, propagated, known, fun assignment options work => ?_⟩
  rcases agrees Scalar.ordered_ofField (by simp [unfolded]) assignment options work with
    ⟨rows, computed, entries, _⟩
  exact ⟨rows, computed, entries 0 0 (by decide)⟩

end Autodiff
