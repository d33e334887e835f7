import Autodiff.Proofs.Session.Runs
import Autodiff.Proofs.Tape.DataFlow

/-!
# Unit directions

Jacobians come from unit directions: some entries of one block are seeded with one and all others with zero.
Seeded entries of an input block give a joint column, one element per output entry, and seeded entries of an
output block give a joint row. The dense Jacobians put together the columns or the rows of single entries.

By data flow, an element of a joint column depends only on the seeded entries that flow to its output
(`jointColumn_congr`), and an element of a joint row only on the seeded entries that its input flows to
(`jointRow_congr`). What no seeded entry touches is exactly zero.
-/

namespace Autodiff

variable {α : Type}

def blockRows {inputs outputs : List Block}
    (jacobian : Matrix (BlockEntry outputs) (BlockEntry inputs) α) (iind : Fin inputs.length)
    (oind : Fin outputs.length) : List (List α) :=
  List.ofFn fun row => List.ofFn fun column => jacobian ⟨oind, row⟩ ⟨iind, column⟩

def entryOfRow? (rows : List (List α)) (row column : Nat) : Option α :=
  (rows[row]?).bind (·[column]?)

theorem entryOfRow?_blockRows {inputs outputs : List Block}
    (jacobian : Matrix (BlockEntry outputs) (BlockEntry inputs) α) (output : BlockEntry outputs)
    (input : BlockEntry inputs) :
    entryOfRow? (blockRows jacobian input.1 output.1) output.2 input.2 =
      some (jacobian output input) := by
  simp [entryOfRow?, blockRows]

/-! ## Seeds that agree on a slot -/

section Agreement

variable {blocks : List Block} {first second : BlockEntry blocks → α} {slot : Nat}
  (agree : ∀ entry : BlockEntry blocks, entry.slot = slot → first entry = second entry)
include agree

theorem filter_seedSlots_congr :
    (seedSlots blocks (Seed.ofVector blocks first)).filter (·.1 = slot) =
      (seedSlots blocks (Seed.ofVector blocks second)).filter (·.1 = slot) := by
  simp only [Seed.seedSlots_ofVector, List.filter_map]
  apply List.map_congr_left
  intro entry member
  have isSlot : entry.slot = slot := by simpa using (List.mem_filter.mp member).2
  rw [agree entry isSlot]

theorem stored_congr (rest : α) :
    stored rest blocks (Seed.ofVector blocks first) slot =
      stored rest blocks (Seed.ofVector blocks second) slot := by
  simp only [stored, foldl_update_apply fun _ entry => entry, filter_seedSlots_congr agree]

theorem adjointsOf_congr (arithmetic : Arithmetic α) :
    arithmetic.adjointsOf blocks (Seed.ofVector blocks first) slot =
      arithmetic.adjointsOf blocks (Seed.ofVector blocks second) slot := by
  simp only [Arithmetic.adjointsOf, Arithmetic.deposit, foldl_update_apply,
    filter_seedSlots_congr agree]

end Agreement

namespace Arithmetic

variable (arithmetic : Arithmetic α) (one : α) (tape : Tape) (record : Record α)

/-- The sensitivities of the outputs if the given entries of an input block are seeded together. -/
def jointColumn (iind : Nat) (entries : List Nat) (output : BlockEntry tape.outputs) : α :=
  arithmetic.pushAll record
    (stored arithmetic.zero tape.inputs (unitSeed arithmetic.zero one tape.inputs iind entries))
    output.slot

/-- The sensitivities of the inputs if the given entries of an output block are seeded together. -/
def jointRow (oind : Nat) (entries : List Nat) (input : BlockEntry tape.inputs) : α :=
  arithmetic.pullAll record
    (arithmetic.adjointsOf tape.outputs (unitSeed arithmetic.zero one tape.outputs oind entries))
    input.slot

def forwardJacobian : Matrix (BlockEntry tape.outputs) (BlockEntry tape.inputs) α :=
  .of fun output input => arithmetic.jointColumn one tape record input.1 [input.2.val] output

def reverseJacobian : Matrix (BlockEntry tape.outputs) (BlockEntry tape.inputs) α :=
  .of fun output input => arithmetic.jointRow one tape record output.1 [output.2.val] input

/-! ## Influence of seeded entries -/

variable {one tape record} {entries others : List Nat}

theorem unit_congr {holds : Prop} [Decidable holds] {number : Nat} {zero one : α}
    (same : holds → (number ∈ entries ↔ number ∈ others)) :
    (if holds ∧ number ∈ entries then one else zero) =
      if holds ∧ number ∈ others then one else zero := by
  by_cases isBlock : holds
  · simp [isBlock, same isBlock]
  · simp [isBlock]

theorem jointColumn_congr (records : tape.Records record) {iind : Nat}
    {output : BlockEntry tape.outputs}
    (same : ∀ input : BlockEntry tape.inputs, input.1.val = iind →
      Passes tape.instructions input.slot output.slot →
        (input.2.val ∈ entries ↔ input.2.val ∈ others)) :
    arithmetic.jointColumn one tape record iind entries output =
      arithmetic.jointColumn one tape record iind others output := by
  apply pushAll_congr
  intro source flows
  rw [records, List.reverse_reverse] at flows
  simp only [Seed.unitSeed_eq_ofVector]
  apply stored_congr
  rintro input rfl
  exact unit_congr fun isBlock => same input isBlock flows

theorem jointRow_congr (records : tape.Records record) {oind : Nat} {input : BlockEntry tape.inputs}
    (same : ∀ output : BlockEntry tape.outputs, output.1.val = oind →
      Passes tape.instructions input.slot output.slot →
        (output.2.val ∈ entries ↔ output.2.val ∈ others)) :
    arithmetic.jointRow one tape record oind entries input =
      arithmetic.jointRow one tape record oind others input := by
  apply pullAll_congr
  intro target flows
  rw [records, List.reverse_reverse] at flows
  simp only [Seed.unitSeed_eq_ofVector]
  apply adjointsOf_congr
  rintro output rfl
  exact unit_congr fun isBlock => same output isBlock flows

variable {arithmetic} (known : arithmetic.isZero arithmetic.zero = true)
include known

theorem jointColumn_nil (iind : Nat) (output : BlockEntry tape.outputs) :
    arithmetic.jointColumn one tape record iind [] output = arithmetic.zero := by
  have start : stored arithmetic.zero tape.inputs
      (unitSeed arithmetic.zero one tape.inputs iind []) = fun _ => arithmetic.zero := by
    rw [Seed.unitSeed_eq_ofVector, stored, Seed.seedSlots_ofVector]
    induction BlockEntry.all tape.inputs with
    | nil => rfl
    | cons entry entries ih => simpa [Function.update_eq_self_iff] using ih
  rw [jointColumn, start, pushAll_zero known]

theorem jointRow_nil (sum : arithmetic.add arithmetic.zero arithmetic.zero = arithmetic.zero) (oind : Nat)
    (input : BlockEntry tape.inputs) :
    arithmetic.jointRow one tape record oind [] input = arithmetic.zero := by
  have start : arithmetic.adjointsOf tape.outputs
      (unitSeed arithmetic.zero one tape.outputs oind []) = fun _ => arithmetic.zero := by
    rw [Seed.unitSeed_eq_ofVector, adjointsOf, deposit, Seed.seedSlots_ofVector]
    induction BlockEntry.all tape.outputs with
    | nil => rfl
    | cons entry entries ih => simpa [sum] using ih
  rw [jointRow, start, pullAll_zero known]

theorem forwardJacobian_eq_zero (records : tape.Records record) {output : BlockEntry tape.outputs}
    {input : BlockEntry tape.inputs} (apart : ¬Passes tape.instructions input.slot output.slot) :
    arithmetic.forwardJacobian one tape record output input = arithmetic.zero := by
  have unseeded : arithmetic.jointColumn one tape record input.1 [input.2.val] output =
      arithmetic.jointColumn one tape record input.1 [] output := by
    apply jointColumn_congr arithmetic records
    intro other sameBlock flows
    have different : other.2.val ≠ input.2.val := fun sameNumber =>
      apart (BlockEntry.eq_iff.mpr ⟨sameBlock, sameNumber⟩ ▸ flows)
    simp [different]
  exact unseeded.trans (jointColumn_nil known _ output)

theorem reverseJacobian_eq_zero (sum : arithmetic.add arithmetic.zero arithmetic.zero = arithmetic.zero)
    (records : tape.Records record) {output : BlockEntry tape.outputs} {input : BlockEntry tape.inputs}
    (apart : ¬Passes tape.instructions input.slot output.slot) :
    arithmetic.reverseJacobian one tape record output input = arithmetic.zero := by
  have unseeded : arithmetic.jointRow one tape record output.1 [output.2.val] input =
      arithmetic.jointRow one tape record output.1 [] input := by
    apply jointRow_congr arithmetic records
    intro other sameBlock flows
    have different : other.2.val ≠ output.2.val := fun sameNumber =>
      apart (BlockEntry.eq_iff.mpr ⟨sameBlock, sameNumber⟩ ▸ flows)
    simp [different]
  exact unseeded.trans (jointRow_nil known sum _ input)

end Arithmetic

/-! ## Calls that seed units -/

namespace Algebra.Computes

variable {arithmetic : Arithmetic α} {algebra : Algebra (Except Error) α} {tape : Tape}
  {point values : List (List α)} {record : Record α} {options : EvalOptions} {one : α}

variable (computes : algebra.Computes arithmetic) (runs : tape.RunsTo algebra point values record)
  (valid : tape.Valid)
include computes runs valid

theorem columns (iind rest : Nat) (chosen : List (List Nat)) (work : Vector α tape.numSlots) :
    Session.Answers tape options algebra one
      (Session.packed (Session.forwardAd point) rest
        ((Session.holding tape options algebra one work).unitSeeds tape.inputs iind chosen))
      (chosen.map fun entries =>
        Seed.ofVector tape.outputs (arithmetic.jointColumn one tape record iind entries)) := by
  have joint : (chosen.map fun entries =>
      Seed.ofVector tape.outputs (arithmetic.jointColumn one tape record iind entries)) =
      ((Session.holding tape options algebra one work).unitSeeds tape.inputs iind chosen).map
        (arithmetic.pushedSeed tape record) := by
    simp only [Session.unitSeeds, Session.holding, computes.zero, List.map_map]
    rfl
  rw [joint]
  exact .packed (fun piece inside => computes.forwardAd runs valid fun seed member =>
    Session.shaped_unitSeeds seed (inside seed member)) rest

theorem rows (oind rest : Nat) (chosen : List (List Nat)) (work : Vector α tape.numSlots) :
    Session.Answers tape options algebra one
      (Session.packed (Session.reverseAd point) rest
        ((Session.holding tape options algebra one work).unitSeeds tape.outputs oind chosen))
      (chosen.map fun entries =>
        Seed.ofVector tape.inputs (arithmetic.jointRow one tape record oind entries)) := by
  have joint : (chosen.map fun entries =>
      Seed.ofVector tape.inputs (arithmetic.jointRow one tape record oind entries)) =
      ((Session.holding tape options algebra one work).unitSeeds tape.outputs oind chosen).map
        (arithmetic.pulledSeed tape record) := by
    simp only [Session.unitSeeds, Session.holding, computes.zero, List.map_map]
    rfl
  rw [joint]
  exact .packed (fun piece inside => computes.reverseAd runs valid fun seed member =>
    Session.shaped_unitSeeds seed (inside seed member)) rest

theorem jacobianForward (iind : Fin tape.inputs.length) (oind : Fin tape.outputs.length) :
    Session.Answers tape options algebra one (Session.jacobianForward point iind oind)
      (blockRows (arithmetic.forwardJacobian one tape record) iind oind) := by
  refine .get_bind fun work => ?_
  refine (Session.Answers.lift (tape.block_input iind)).bind ?_
  refine (Session.Answers.lift (tape.block_output oind)).bind ?_
  refine (computes.columns runs valid iind _ _ work).bind ?_
  simp only [blockRows, List.ofFn_eq_map, ← List.map_coe_finRange_eq_range, List.mapM_map,
    List.map_map]
  refine .mapM fun row _ => .mapM fun column _ => ?_
  exact .lift (Seed.entry_ofVector _ ⟨oind, row⟩)

theorem jacobianReverse (iind : Fin tape.inputs.length) (oind : Fin tape.outputs.length) :
    Session.Answers tape options algebra one (Session.jacobianReverse point iind oind)
      (blockRows (arithmetic.reverseJacobian one tape record) iind oind) := by
  refine .get_bind fun work => ?_
  refine (Session.Answers.lift (tape.block_input iind)).bind ?_
  refine (Session.Answers.lift (tape.block_output oind)).bind ?_
  refine (computes.rows runs valid oind _ _ work).bind ?_
  rw [blockRows, List.ofFn_eq_map]
  simp only [← List.map_coe_finRange_eq_range, List.mapM_map, List.map_map]
  exact .mapM fun row _ => .lift (Seed.block_ofVector _ iind)

end Algebra.Computes

end Autodiff
