import Autodiff.Document.Tape
import Autodiff.Proofs.Pattern.Compressed

/-!
# Reading tapes from documents

Reading a tape checks the form of the document, then one pattern after the other, then the tape. It
gives back a tape or an error that says what is wrong, except in one situation: the first pattern
that is not compressed has a column that reaches beyond its rows, or as many columns as there are
machine words. All other contents of a document are answered.
-/

namespace Autodiff

/-- A broken precondition instead of an answer. -/
def Error.IsViolation (cause : Error) : Prop :=
  ∃ violation, cause = .violation violation

def Error.IsTapeFlaw (cause : Error) : Prop :=
  ∃ flaw, cause = .graph (.invalidTape flaw)

def Error.IsPatternFlaw (cause : Error) : Prop :=
  ∃ flaw, cause = .graph (.invalidPattern flaw)

/-! ## Validation -/

namespace Tape

theorem ends_flawed {α : Type} (returns : α → Prop) (flaw : TapeFlaw) :
    Ends Error.IsTapeFlaw returns (flawed flaw) :=
  ⟨flaw, rfl⟩

theorem ends_checkSlotCount (side : Side) (index : Nat) (block : Block) :
    Ends Error.IsTapeFlaw (fun _ => True) (checkSlotCount side index block) := by
  unfold checkSlotCount
  split
  · trivial
  · apply ends_flawed

theorem ends_checkInputSlots (numSlots index next : Nat) (slots : List Nat) :
    Ends Error.IsTapeFlaw (fun _ => True) (checkInputSlots numSlots index next slots) := by
  induction slots generalizing next with
  | nil => trivial
  | cons slot slots ih =>
      unfold checkInputSlots
      split
      · apply ih
      · apply ends_flawed

theorem ends_checkInputs (numSlots index next : Nat) (blocks : List Block) :
    Ends Error.IsTapeFlaw (fun _ => True) (checkInputs numSlots index next blocks) := by
  induction blocks generalizing index next with
  | nil => trivial
  | cons block blocks ih =>
      apply Ends.bind
      · apply ends_checkSlotCount
      intro _ _
      apply Ends.bind
      · apply ends_checkInputSlots
      intro next _
      apply ih

theorem ends_checkInstructions (numSlots index : Nat) (written : Std.HashSet Nat)
    (instructions : List Instruction) :
    Ends Error.IsTapeFlaw (fun _ => True) (checkInstructions numSlots index written instructions) := by
  induction instructions generalizing index written with
  | nil => trivial
  | cons instruction instructions ih =>
      simp only [checkInstructions]
      split
      · exact (ends_flawed (fun _ => False) _).bind fun _ => False.elim
      split
      · exact (ends_flawed (fun _ => False) _).bind fun _ => False.elim
      split
      · exact (ends_flawed (fun _ => False) _).bind fun _ => False.elim
      · apply ih

theorem ends_checkOutputs (written : Std.HashSet Nat) (index : Nat) (blocks : List Block) :
    Ends Error.IsTapeFlaw (fun _ => True) (checkOutputs written index blocks) := by
  induction blocks generalizing index with
  | nil => trivial
  | cons block blocks ih =>
      apply Ends.bind
      · apply ends_checkSlotCount
      intro _ _
      split
      · exact (ends_flawed (fun _ => False) _).bind fun _ => False.elim
      · apply ih

/-- Validation names a flaw, unless the slots cannot be numbered. -/
theorem validate_outcome (tape : Tape) :
    (1 <<< 63 ≤ tape.numSlots ∧ tape.validate = .error (.violation .sizeOverflow)) ∨
      (tape.numSlots < 1 <<< 63 ∧ Ends Error.IsTapeFlaw (fun _ => True) tape.validate) := by
  unfold validate
  by_cases large : 1 <<< 63 ≤ tape.numSlots
  · rw [if_pos large]
    exact .inl ⟨large, rfl⟩
  · rw [if_neg large]
    refine .inr ⟨Nat.not_le.mp large, ?_⟩
    apply Ends.bind
    · apply ends_checkInputs
    intro filled _
    apply Ends.bind
    · apply ends_checkInstructions
    intro written _
    apply ends_checkOutputs

theorem ofParts_violation_iff (instructions : List Instruction) (numSlots : Nat)
    (inputs outputs : List Block) :
    FailsWith Error.IsViolation (ofParts instructions numSlots inputs outputs) ↔
      1 <<< 63 ≤ numSlots := by
  rw [ofParts, failsWith_bind]
  rcases validate_outcome ⟨instructions, numSlots, inputs, outputs⟩ with
    ⟨large, equal⟩ | ⟨small, ends⟩
  · simp only [equal, failsWith_error]
    exact ⟨fun _ => large, fun _ => .inl ⟨_, rfl⟩⟩
  · refine ⟨?_, fun large => absurd large (Nat.not_le.mpr small)⟩
    rintro (⟨_, ⟨violation, rfl⟩, equal⟩ | ⟨_, _, violated⟩)
    · rw [equal] at ends
      obtain ⟨flaw, impossible⟩ := ends
      cases impossible
    · exact absurd violated (not_failsWith_ok _)

end Tape

/-! ## Patterns -/

namespace RawPattern

def Compressed (raw : RawPattern) : Prop :=
  Pattern.Compressed raw.nrow raw.ncol raw.pointers raw.rows

/-- Reading the parts leaves the rows or the range of machine words. -/
def Overruns (raw : RawPattern) : Prop :=
  Pattern.Overruns raw.nrow raw.ncol raw.pointers raw.rows

end RawPattern

namespace RawBlock

variable (raw : RawBlock)

theorem check_eq_ok_iff : (∃ block, raw.check = .ok block) ↔ raw.pattern.Compressed := by
  rw [RawPattern.Compressed, ← Pattern.ofCompressed_eq_ok_iff, check]
  cases Pattern.ofCompressed raw.pattern.nrow raw.pattern.ncol raw.pattern.pointers
    raw.pattern.rows with
  | error cause => exact ⟨nofun, nofun⟩
  | ok pattern => exact ⟨fun _ => ⟨pattern, rfl⟩, fun _ => ⟨_, rfl⟩⟩

theorem check_violation_iff : FailsWith Error.IsViolation raw.check ↔ raw.pattern.Overruns := by
  rw [RawPattern.Overruns, ← Pattern.ofCompressed_violation_iff, check]
  cases Pattern.ofCompressed raw.pattern.nrow raw.pattern.ncol raw.pattern.pointers
    raw.pattern.rows with
  | error cause => simp [Error.IsViolation]
  | ok pattern => exact ⟨fun fails => absurd fails (not_failsWith_ok _), nofun⟩

theorem ends_check :
    Ends (fun cause => cause.IsViolation ∨ cause.IsPatternFlaw) (fun _ => True) raw.check := by
  unfold check
  rcases Pattern.ofCompressed_outcome raw.pattern.nrow raw.pattern.ncol raw.pattern.pointers
    raw.pattern.rows with ⟨-, equal⟩ | ⟨-, cause, equal⟩ | ⟨-, -, flaw, equal⟩
  · rw [equal]
    trivial
  · rw [equal]
    exact .inl ⟨cause, rfl⟩
  · rw [equal]
    exact .inr ⟨flaw, rfl⟩

theorem mapM_check_eq_ok_iff (blocks : List RawBlock) :
    (∃ checked, blocks.mapM check = .ok checked) ↔
      ∀ block ∈ blocks, block.pattern.Compressed := by
  simp only [exists_mapM_iff, check_eq_ok_iff]

theorem mapM_check_violation_iff (blocks : List RawBlock) :
    FailsWith Error.IsViolation (blocks.mapM check) ↔
      StopsAt RawPattern.Compressed RawPattern.Overruns (blocks.map pattern) := by
  simp only [failsWith_mapM, stopsAt_map, check_eq_ok_iff, check_violation_iff]

end RawBlock

/-! ## Tapes -/

namespace RawTape

def patterns (raw : RawTape) : List RawPattern :=
  (raw.inputs ++ raw.outputs).map RawBlock.pattern

/-- Reading the parts breaks a precondition: at the first pattern that is not compressed, or after
all of them because the slots cannot be numbered. -/
def Overruns (raw : RawTape) : Prop :=
  StopsAt RawPattern.Compressed RawPattern.Overruns raw.patterns ∨
    (∀ pattern ∈ raw.patterns, pattern.Compressed) ∧ 1 <<< 63 ≤ raw.numSlots

variable (raw : RawTape)

theorem check_violation_iff : FailsWith Error.IsViolation raw.check ↔ raw.Overruns := by
  simp only [check, failsWith_bind, RawBlock.mapM_check_violation_iff, Tape.ofParts_violation_iff,
    Overruns, patterns, List.map_append, stopsAt_append, List.forall_mem_append,
    List.forall_mem_map, ← RawBlock.mapM_check_eq_ok_iff]
  constructor
  · rintro (stopped | ⟨inputs, accepted, stopped | ⟨outputs, accepted', large⟩⟩)
    · exact .inl (.inl stopped)
    · exact .inl (.inr ⟨⟨inputs, accepted⟩, stopped⟩)
    · exact .inr ⟨⟨⟨inputs, accepted⟩, outputs, accepted'⟩, large⟩
  · rintro ((stopped | ⟨⟨inputs, accepted⟩, stopped⟩) | ⟨⟨⟨inputs, accepted⟩, outputs, accepted'⟩, large⟩)
    · exact .inl stopped
    · exact .inr ⟨inputs, accepted, .inl stopped⟩
    · exact .inr ⟨inputs, accepted, .inr ⟨outputs, accepted', large⟩⟩

theorem ends_check :
    Ends (fun cause => cause.IsViolation ∨ cause.IsPatternFlaw ∨ cause.IsTapeFlaw) (fun _ => True)
      raw.check := by
  have blocks (blocks : List RawBlock) :
      Ends (fun cause => cause.IsViolation ∨ cause.IsPatternFlaw ∨ cause.IsTapeFlaw) (fun _ => True)
        (blocks.mapM RawBlock.check) := by
    have each := Ends.mapM fun (raw : RawBlock) (_ : raw ∈ blocks) => raw.ends_check
    exact each.mono (fun _ kind => kind.imp_right .inl) fun _ _ => trivial
  apply Ends.bind (blocks raw.inputs)
  intro inputs _
  apply Ends.bind (blocks raw.outputs)
  intro outputs _
  rcases Tape.validate_outcome ⟨raw.instructions, raw.numSlots, inputs, outputs⟩ with
    ⟨-, equal⟩ | ⟨-, ends⟩
  · rw [Tape.ofParts, equal]
    exact .inl ⟨_, rfl⟩
  · exact (ends.mono (fun _ flaw => .inr (.inr flaw)) fun _ holds => holds).bind fun _ _ => trivial

variable {raw} in
theorem Overruns.exists_pattern (overruns : raw.Overruns) :
    1 <<< 63 ≤ raw.numSlots ∨ ∃ pattern ∈ raw.patterns,
      maxWord ≤ pattern.ncol ∨ ∃ pointer ∈ pattern.pointers, pattern.rows.length < pointer := by
  rcases overruns with stopped | ⟨-, large⟩
  · obtain ⟨pattern, member, overruns⟩ := stopped.exists_mem
    exact .inr ⟨pattern, member, Pattern.Overruns.exists_pointer overruns⟩
  · exact .inl large

end RawTape

namespace Tape

theorem ofDocument_violation_iff (document : Document) :
    (∃ cause, ofDocument document = .error (.invalid (.violation cause))) ↔
      ∃ raw, RawTape.ofDocument? document = some raw ∧ raw.Overruns := by
  unfold ofDocument
  cases RawTape.ofDocument? document with
  | none => simp
  | some raw =>
      simp only [Option.some.injEq, exists_eq_left', ← raw.check_violation_iff]
      cases raw.check with
      | ok tape => simp [Except.mapError]
      | error cause => simp [Except.mapError, Error.IsViolation]

theorem ofDocument_outcome (document : Document) :
    (∃ tape, ofDocument document = .ok tape) ∨
      ofDocument document = .error .malformed ∨
      ∃ cause, (cause.IsViolation ∨ cause.IsPatternFlaw ∨ cause.IsTapeFlaw) ∧
        ofDocument document = .error (.invalid cause) := by
  unfold ofDocument
  cases RawTape.ofDocument? document with
  | none => exact .inr (.inl rfl)
  | some raw =>
      rcases raw.ends_check.outcome with ⟨tape, -, equal⟩ | ⟨cause, kind, equal⟩
      · exact .inl ⟨tape, by simp only [equal]; rfl⟩
      · exact .inr (.inr ⟨cause, kind, by simp only [equal]; rfl⟩)

end Tape

/-- Reading a compressed form or a document breaks a precondition exactly if the first part that is
not accepted reaches beyond its rows or cannot be counted in machine words, which takes a pointer
beyond the rows or such a count. Everything else is answered. -/
theorem reading_answers_or_overruns (nrow ncol : Nat) (pointers rows : List Nat)
    (document : Document) :
    (((∃ cause, Pattern.ofCompressed nrow ncol pointers rows = .error (.violation cause)) ↔
        Pattern.Overruns nrow ncol pointers rows) ∧
      (Pattern.Overruns nrow ncol pointers rows ∨
        (∃ pattern, Pattern.ofCompressed nrow ncol pointers rows = .ok pattern) ∨
        ∃ flaw, Pattern.ofCompressed nrow ncol pointers rows =
          .error (.graph (.invalidPattern flaw))) ∧
      (Pattern.Overruns nrow ncol pointers rows →
        maxWord ≤ ncol ∨ ∃ pointer ∈ pointers, rows.length < pointer)) ∧
    ((∃ cause, Tape.ofDocument document = .error (.invalid (.violation cause))) ↔
        ∃ raw, RawTape.ofDocument? document = some raw ∧ raw.Overruns) ∧
      ((∃ raw, RawTape.ofDocument? document = some raw ∧ raw.Overruns) ∨
        (∃ tape, Tape.ofDocument document = .ok tape) ∨
        Tape.ofDocument document = .error .malformed ∨
        ∃ cause, (cause.IsPatternFlaw ∨ cause.IsTapeFlaw) ∧
          Tape.ofDocument document = .error (.invalid cause)) ∧
      ∀ raw : RawTape, raw.Overruns →
        1 <<< 63 ≤ raw.numSlots ∨ ∃ pattern ∈ raw.patterns,
          maxWord ≤ pattern.ncol ∨ ∃ pointer ∈ pattern.pointers, pattern.rows.length < pointer := by
  refine ⟨⟨Pattern.ofCompressed_violation_iff, ?_, Pattern.Overruns.exists_pointer⟩,
    Tape.ofDocument_violation_iff document, ?_, fun _ => RawTape.Overruns.exists_pattern⟩
  · rcases Pattern.ofCompressed_outcome nrow ncol pointers rows with
      ⟨-, equal⟩ | ⟨overruns, -⟩ | ⟨-, -, flaw, equal⟩
    · exact .inr (.inl ⟨_, equal⟩)
    · exact .inl overruns
    · exact .inr (.inr ⟨flaw, equal⟩)
  · rcases Tape.ofDocument_outcome document with
      read | malformed | ⟨cause, ⟨violation, rfl⟩ | flaw, equal⟩
    · exact .inr (.inl read)
    · exact .inr (.inr (.inl malformed))
    · exact .inl ((Tape.ofDocument_violation_iff document).mp ⟨violation, equal⟩)
    · exact .inr (.inr (.inr ⟨cause, flaw, equal⟩))

/-- The pointers start at zero and end at the number of rows, but the first column claims two rows
where only one is stored. -/
theorem ofCompressed_beyond_rows :
    Pattern.ofCompressed 3 2 [0, 2, 1] [0] = .error (.violation .rangeOutOfBounds) ∧
      ¬ ((∃ pattern, Pattern.ofCompressed 3 2 [0, 2, 1] [0] = .ok pattern) ∨
        ∃ flaw, Pattern.ofCompressed 3 2 [0, 2, 1] [0] = .error (.graph (.invalidPattern flaw))) := by
  have violates : Pattern.ofCompressed 3 2 [0, 2, 1] [0] = .error (.violation .rangeOutOfBounds) := by
    decide
  rw [violates]
  exact ⟨rfl, by simp⟩

end Autodiff
