import Autodiff.Proofs.Document.Reading
import Mathlib.Tactic.MkIffOfInductiveProp

/-!
# Tapes survive being written and read

Every part of a tape is written in a form that its reader takes: numbers within the range of their fields,
opcodes by names that are all different, patterns in compressed form. So a document that was written from a
valid tape is read as this tape. The one exception are literals that are not finite. They have no form of
their own, and the document is refused for its form, also if the instruction does not use its literal.
-/

namespace Autodiff

open Document

/-! ## Ranges -/

/-- The size of a pattern and its compressed form are made of machine words. -/
@[mk_iff]
structure Pattern.FitsWords (pattern : Pattern) : Prop where
  nrow : pattern.nrow ≤ maxWord
  ncol : pattern.ncol < maxWord
  nnz : pattern.nnz ≤ maxWord

/-- The slots that an instruction names are half words. -/
@[mk_iff]
structure Instruction.FitsWords (instruction : Instruction) : Prop where
  out : instruction.out ≤ 1 <<< 32 - 1
  fst : instruction.fst ≤ 1 <<< 32 - 1
  snd : instruction.snd ≤ 1 <<< 32 - 1

/-- The pattern of a block fits, and its slots are half words. -/
@[mk_iff]
structure Block.FitsWords (block : Block) : Prop where
  pattern : block.pattern.FitsWords
  slots : ∀ slot ∈ block.slots, slot ≤ 1 <<< 32 - 1

/-- All numbers of a tape are in the ranges that machine words have for them. -/
@[mk_iff]
structure Tape.FitsWords (tape : Tape) : Prop where
  instructions : ∀ instruction ∈ tape.instructions, instruction.FitsWords
  inputs : ∀ block ∈ tape.inputs, block.FitsWords
  outputs : ∀ block ∈ tape.outputs, block.FitsWords

instance (pattern : Pattern) : Decidable pattern.FitsWords :=
  decidable_of_iff' _ pattern.fitsWords_iff

instance (instruction : Instruction) : Decidable instruction.FitsWords :=
  decidable_of_iff' _ instruction.fitsWords_iff

instance (block : Block) : Decidable block.FitsWords :=
  decidable_of_iff' _ block.fitsWords_iff

instance (tape : Tape) : Decidable tape.FitsWords :=
  decidable_of_iff' _ tape.fitsWords_iff

/-! ## Values -/

namespace Document

theorem nat?_integer {bound value : Nat} (fits : value ≤ bound) : nat? bound (.integer value) = some value :=
  if_pos fits

theorem word?_integer {value : Nat} (fits : value ≤ maxWord) : word? (.integer value) = some value :=
  nat?_integer fits

theorem halfWord?_integer {value : Nat} (fits : value ≤ 1 <<< 32 - 1) : halfWord? (.integer value) = some value :=
  nat?_integer fits

theorem list?_array {α β : Type} {write : α → Document} {read? : Document → Option β} {convert : α → β}
    {elements : List α} (each : ∀ element ∈ elements, read? (write element) = some (convert element)) :
    list? read? (.array (elements.map write)) = some (elements.map convert) := by
  change (elements.map write).mapM read? = _
  induction elements with
  | nil => rfl
  | cons element elements ih =>
      rw [List.forall_mem_cons] at each
      rw [List.map_cons, List.mapM_cons, each.1, ih each.2]
      rfl

theorem list?_array_eq_none {α β : Type} {write : α → Document} {read? : Document → Option β}
    {elements : List α} {element : α} (member : element ∈ elements) (refused : read? (write element) = none) :
    list? read? (.array (elements.map write)) = none := by
  change (elements.map write).mapM read? = _
  induction elements with
  | nil => cases member
  | cons first elements ih =>
      rw [List.map_cons, List.mapM_cons]
      rcases List.mem_cons.mp member with rfl | later
      · rw [refused]
        rfl
      · cases read? (write first) with
        | none => rfl
        | some value =>
            rw [ih later]
            rfl

theorem list?_ofNats {bound : Nat} {values : List Nat} (fits : ∀ value ∈ values, value ≤ bound) :
    list? (nat? bound) (ofNats values) = some values := by
  have read := list?_array fun value member => nat?_integer (fits value member)
  rwa [List.map_id'] at read

theorem float?_ofFloat {value : Float} (finite : value.isFinite) : float? (ofFloat value) = some value := by
  rw [ofFloat, if_pos finite]
  rfl

theorem float?_ofFloat_eq_none {value : Float} (notFinite : ¬ value.isFinite) : float? (ofFloat value) = none := by
  rw [ofFloat, if_neg notFinite]
  rfl

end Document

theorem Opcode.variant?_ident (op : Opcode) : variant? ident all (.string op.ident) = some op := by
  rcases op with _ | op | op
  · rfl
  · cases op <;> rfl
  · cases op <;> rfl

/-! ## Parts of a tape -/

namespace Instruction

variable {instruction : Instruction}

theorem ofDocument?_toDocument (fits : instruction.FitsWords) :
    ofDocument? instruction.toDocument =
      (float? (ofFloat instruction.literal)).map fun literal => { instruction with literal } := by
  have operands : list? halfWord? (ofNats [instruction.fst, instruction.snd]) =
      some [instruction.fst, instruction.snd] :=
    list?_ofNats (by simpa using ⟨fits.fst, fits.snd⟩)
  have fields : instruction.toDocument.record? ["op", "out", "args", "literal"] =
      some [some (.string instruction.op.ident), some (.integer instruction.out),
        some (ofNats [instruction.fst, instruction.snd]), some (ofFloat instruction.literal)] := rfl
  simp only [ofDocument?, fields, required?, Option.bind_eq_bind, Option.bind_some, Opcode.variant?_ident,
    halfWord?_integer fits.out, operands]
  cases float? (ofFloat instruction.literal) <;> rfl

end Instruction

def Pattern.raw (pattern : Pattern) : RawPattern :=
  ⟨pattern.nrow, pattern.ncol, pattern.columnPointers, pattern.rows⟩

def Block.raw (block : Block) : RawBlock :=
  ⟨block.name, block.pattern.raw, block.slots⟩

def Tape.raw (tape : Tape) : RawTape :=
  ⟨tape.instructions, tape.numSlots, tape.inputs.map Block.raw, tape.outputs.map Block.raw⟩

theorem Pattern.length_rows (pattern : Pattern) : pattern.rows.length = pattern.nnz := by
  rw [rows, nnz, List.length_flatten]
  rfl

theorem RawPattern.ofDocument?_toDocument {pattern : Pattern} (wellFormed : pattern.WellFormed)
    (fits : pattern.FitsWords) : ofDocument? pattern.toDocument = some pattern.raw := by
  have fields : pattern.toDocument.record? ["nrow", "ncol", "colind", "row"] =
      some [some (.integer pattern.nrow), some (.integer pattern.ncol),
        some (ofNats pattern.columnPointers), some (ofNats pattern.rows)] := rfl
  have pointers : list? word? (ofNats pattern.columnPointers) = some pattern.columnPointers := by
    refine list?_ofNats fun pointer member => ?_
    have bounded := Pattern.offsets_le member
    rw [Nat.zero_add] at bounded
    exact Nat.le_trans bounded (Nat.le_trans (Nat.le_of_eq pattern.length_rows) fits.nnz)
  have rows : list? word? (ofNats pattern.rows) = some pattern.rows := by
    refine list?_ofNats fun row member => ?_
    rcases List.mem_flatten.mp member with ⟨column, isColumn, isRow⟩
    exact Nat.le_trans (Nat.le_of_lt ((wellFormed column isColumn).2 row isRow)) fits.nrow
  simp only [ofDocument?, fields, required?, Option.bind_eq_bind, Option.bind_some,
    word?_integer fits.nrow, word?_integer (Nat.le_of_lt fits.ncol), pointers, rows]
  rfl

namespace RawBlock

variable {block : Block}

theorem ofDocument?_toDocument (wellFormed : block.pattern.WellFormed) (fits : block.FitsWords) :
    ofDocument? block.toDocument = some block.raw := by
  have fields : block.toDocument.record? ["name", "sparsity", "slots"] =
      some [some (.string block.name), some block.pattern.toDocument, some (ofNats block.slots)] := rfl
  have slots : list? halfWord? (ofNats block.slots) = some block.slots := list?_ofNats fits.slots
  simp only [ofDocument?, fields, required?, Option.bind_eq_bind, Option.bind_some,
    RawPattern.ofDocument?_toDocument wellFormed fits.pattern, slots]
  rfl

theorem check_raw (wellFormed : block.pattern.WellFormed) (fits : block.FitsWords) :
    block.raw.check = .ok block := by
  have read : Pattern.ofCompressed block.raw.pattern.nrow block.raw.pattern.ncol block.raw.pattern.pointers
      block.raw.pattern.rows = .ok block.pattern :=
    wellFormed.ofCompressed_columnPointers fits.pattern.ncol
  rw [check, read]
  rfl

theorem mapM_check_raw {blocks : List Block} (wellFormed : ∀ block ∈ blocks, block.pattern.WellFormed)
    (fits : ∀ block ∈ blocks, block.FitsWords) : (blocks.map Block.raw).mapM check = .ok blocks := by
  refine mapM_eq_ok.mpr (List.forall₂_map_left_iff.mpr (List.forall₂_same.mpr fun block member => ?_))
  exact check_raw (wellFormed block member) (fits block member)

end RawBlock

/-! ## Tapes -/

namespace Tape

variable {tape : Tape}

/-- Every literal is finite, also where an instruction does not use it. -/
def LiteralsFinite (tape : Tape) : Prop :=
  ∀ instruction ∈ tape.instructions, instruction.literal.isFinite

theorem numSlots_le_of_validate (validated : tape.validate = .ok ()) : tape.numSlots ≤ maxWord := by
  rcases tape.validate_outcome with ⟨-, failed⟩ | ⟨few, -⟩
  · rw [failed] at validated
    cases validated
  · exact Nat.le_trans (Nat.le_of_lt few) (by decide)

section Written

variable (validated : tape.validate = .ok ()) (fits : tape.FitsWords)
  (inputs : ∀ block ∈ tape.inputs, block.pattern.WellFormed)
  (outputs : ∀ block ∈ tape.outputs, block.pattern.WellFormed)
include validated fits inputs outputs

/-- The form of a written tape depends on its literals only. -/
theorem ofDocument?_toDocument_raw : RawTape.ofDocument? tape.toDocument =
    (list? Instruction.ofDocument? (.array (tape.instructions.map Instruction.toDocument))).map
      fun instructions => { tape.raw with instructions } := by
  have fields : tape.toDocument.record? ["instructions", "num_slots", "inputs", "outputs"] =
      some [some (.array (tape.instructions.map Instruction.toDocument)), some (.integer tape.numSlots),
        some (.array (tape.inputs.map Block.toDocument)), some (.array (tape.outputs.map Block.toDocument))] :=
    rfl
  have readInputs : list? RawBlock.ofDocument? (.array (tape.inputs.map Block.toDocument)) =
      some (tape.inputs.map Block.raw) :=
    list?_array fun block member => RawBlock.ofDocument?_toDocument (inputs block member) (fits.inputs block member)
  have readOutputs : list? RawBlock.ofDocument? (.array (tape.outputs.map Block.toDocument)) =
      some (tape.outputs.map Block.raw) :=
    list?_array fun block member =>
      RawBlock.ofDocument?_toDocument (outputs block member) (fits.outputs block member)
  simp only [RawTape.ofDocument?, fields, required?, Option.bind_eq_bind, Option.bind_some,
    word?_integer (numSlots_le_of_validate validated), readInputs, readOutputs]
  cases list? Instruction.ofDocument? (.array (tape.instructions.map Instruction.toDocument)) <;> rfl

theorem ofDocument_toDocument (finite : tape.LiteralsFinite) : ofDocument tape.toDocument = .ok tape := by
  have instructions : list? Instruction.ofDocument? (.array (tape.instructions.map Instruction.toDocument)) =
      some (tape.instructions.map id) := by
    refine list?_array fun instruction member => ?_
    rw [Instruction.ofDocument?_toDocument (fits.instructions instruction member),
      float?_ofFloat (finite instruction member)]
    rfl
  have read : RawTape.ofDocument? tape.toDocument = some tape.raw := by
    rw [ofDocument?_toDocument_raw validated fits inputs outputs, instructions, List.map_id]
    rfl
  have checked : tape.raw.check = .ok tape := by
    simp only [RawTape.check, raw, RawBlock.mapM_check_raw inputs fits.inputs,
      RawBlock.mapM_check_raw outputs fits.outputs, ok_bind, ofParts, validated]
    rfl
  rw [ofDocument, read]
  simp only [checked]
  rfl

theorem ofDocument_toDocument_malformed (notFinite : ¬ tape.LiteralsFinite) :
    ofDocument tape.toDocument = .error .malformed := by
  simp only [LiteralsFinite, not_forall] at notFinite
  rcases notFinite with ⟨instruction, member, notFinite⟩
  have refused : Instruction.ofDocument? instruction.toDocument = none := by
    rw [Instruction.ofDocument?_toDocument (fits.instructions instruction member),
      float?_ofFloat_eq_none notFinite]
    rfl
  have read : RawTape.ofDocument? tape.toDocument = none := by
    rw [ofDocument?_toDocument_raw validated fits inputs outputs, list?_array_eq_none member refused]
    rfl
  rw [ofDocument, read]

end Written

/-- A tape that was put together from valid parts is written and read back as itself if all its literals are
finite. Otherwise its document is refused. The numbers of a tape are machine words, and its patterns are well
formed. -/
theorem reads_back_iff_finite {instructions : List Instruction} {numSlots : Nat} {inputs outputs : List Block}
    (accepted : ofParts instructions numSlots inputs outputs = .ok tape) (fits : tape.FitsWords)
    (wellFormed : ∀ block ∈ tape.inputs ++ tape.outputs, block.pattern.WellFormed) :
    ((∃ read, ofDocument tape.toDocument = .ok read) ↔
        ∀ instruction ∈ tape.instructions, instruction.literal.isFinite) ∧
      (∀ read, ofDocument tape.toDocument = .ok read → read = tape) ∧
      ((∃ instruction ∈ tape.instructions, ¬ instruction.literal.isFinite) →
        ofDocument tape.toDocument = .error .malformed) := by
  rcases bind_eq_ok.mp accepted with ⟨_, validated, same⟩
  cases same
  rw [List.forall_mem_append] at wellFormed
  by_cases finite : LiteralsFinite ⟨instructions, numSlots, inputs, outputs⟩
  · rw [ofDocument_toDocument validated fits wellFormed.1 wellFormed.2 finite]
    refine ⟨⟨fun _ => finite, fun _ => ⟨_, rfl⟩⟩, fun read same => (Except.ok.inj same).symm, ?_⟩
    rintro ⟨instruction, member, notFinite⟩
    exact absurd (finite instruction member) notFinite
  · rw [ofDocument_toDocument_malformed validated fits wellFormed.1 wellFormed.2 finite]
    exact ⟨⟨nofun, fun isFinite => absurd isFinite finite⟩, nofun, fun _ => rfl⟩

end Tape

/-! ## Tapes of unusual shape -/

/-- A tape that overwrites an input, lists a slot in two outputs and has blocks without rows or columns. The
literal belongs to the sine, which does not use it. -/
def irregular (literal : Float) : Tape :=
  ⟨[⟨.const, 2, unusedOperand, unusedOperand, 0.5⟩, ⟨.binary .mul, 0, 0, 2, 0⟩,
      ⟨.unary .sin, 2, 0, unusedOperand, literal⟩], 3,
    [⟨"x", ⟨2, [[0, 1]]⟩, [0, 1]⟩, ⟨"e", ⟨0, [[], []]⟩, []⟩],
    [⟨"y", ⟨2, [[1], [0]]⟩, [2, 0]⟩, ⟨"y", ⟨2, [[1], [0]]⟩, [2, 2]⟩, ⟨"z", ⟨3, []⟩, []⟩]⟩

theorem irregular_ofParts (literal : Float) :
    Tape.ofParts (irregular literal).instructions (irregular literal).numSlots (irregular literal).inputs
      (irregular literal).outputs = .ok (irregular literal) := by
  simp [irregular, Tape.ofParts, Tape.validate, Tape.checkInputs, Tape.checkSlotCount, Tape.checkInputSlots,
    Tape.checkInstructions, Tape.checkOutputs, Instruction.spareOperands, Instruction.operands, Pattern.nnz,
    List.range_succ]

/-- The tape is read back with a finite literal and refused with an infinite one. -/
theorem irregular_reads_back :
    (∃ read, Tape.ofDocument (irregular 0).toDocument = .ok read ∧ read = irregular 0) ∧
      Tape.ofDocument (irregular (1 / 0)).toDocument = .error .malformed := by
  constructor
  · have reads := Tape.reads_back_iff_finite (irregular_ofParts 0) (by decide) (by decide)
    rcases reads.1.mpr (by decide) with ⟨read, found⟩
    exact ⟨read, found, reads.2.1 read found⟩
  · have reads := Tape.reads_back_iff_finite (irregular_ofParts (1 / 0)) (by decide) (by decide)
    exact reads.2.2 (by decide)

end Autodiff
