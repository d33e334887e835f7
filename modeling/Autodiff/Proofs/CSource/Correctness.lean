import Autodiff.Document.Token
import Autodiff.Proofs.CSource.ReadBack
import Autodiff.Proofs.Decimal.Parts
import Autodiff.Proofs.Scalar.Exact
import Autodiff.Proofs.Session.Runs
import Autodiff.Scalar.Float

/-!
# Generated code computes its tape

Running the assignments of a tape copies the inputs to the first slots, executes the instructions on the slots
and copies the slots of the outputs. The numbers in the text have to be read as the literals that were written
(`ReadsNumbers`). A literal that is not finite has no decimal number; it is written as a quotient, so the scalars
have to divide by zero in the same way (`Scalar.QuotientLiterals`).
-/

namespace Autodiff

open CSource

/-- The literals that are not finite are quotients by zero. -/
structure Scalar.QuotientLiterals (α : Type) [Scalar α] : Prop where
  nan : Scalar.ofLiteral (0 / 0) = (Scalar.zero / Scalar.zero : α)
  infinite : Scalar.ofLiteral (1 / 0) = (Scalar.one / Scalar.zero : α)
  negInfinite : Scalar.ofLiteral (-1 / 0) = (-Scalar.one / Scalar.zero : α)

theorem Scalar.quotientLiterals_float : Scalar.QuotientLiterals Float where
  nan := rfl
  infinite := rfl
  negInfinite := rfl

namespace CSource

variable {α : Type} [Scalar α] {constant : String → α} {literals : List Float}

/-- The value of a decimal number with a sign, from the values of those without. -/
def decimalValue (constant : String → α) (text : String) : α :=
  if text.toList.head? = some '-' then -constant (String.ofList text.toList.tail) else constant text

/-- Finite numbers are read as the literals that they were printed from. -/
structure ReadsNumbers (constant : String → α) (literals : List Float) : Prop where
  zero : ∀ text ∈ ["0", "0.0"], constant text = Scalar.zero
  one : constant "1.0" = Scalar.one
  literal : ∀ value ∈ literals, value.isFinite → decimalValue constant (literalText value) = Scalar.ofLiteral value

theorem Numeral.head_ne {text : List Char} (numeral : Numeral text) : text.head? ≠ some '-' := by
  intro minus
  have start := numeral.start
  rw [minus] at start
  cases start

theorem ReadsNumbers.eval_numberExpression (reads : ReadsNumbers constant literals)
    (quotients : Scalar.QuotientLiterals α) {value : Float} (member : value ∈ literals) (memory : Memory α) :
    (numberExpression value).eval? constant memory = some (Scalar.ofLiteral value) := by
  have zero : constant "0.0" = Scalar.zero := reads.zero _ (by simp)
  rw [numberExpression]
  cases parts : FloatParts.ofFloat value with
  | nan =>
      rw [FloatParts.eq_of_nan parts, quotients.nan]
      simp [Expression.eval?, BinaryOp.apply, zero]
  | infinite negative =>
      rw [FloatParts.eq_of_infinite parts]
      cases negative with
      | false => simp [Expression.eval?, BinaryOp.apply, zero, reads.one, quotients.infinite]
      | true => simp [Expression.eval?, BinaryOp.apply, UnaryOp.apply, zero, reads.one, quotients.negInfinite]
  | finite negative magnitude =>
      rcases exists_numeral parts with ⟨text, numeral, printed⟩
      have read := reads.literal value member (FloatParts.isFinite_of_finite parts)
      rw [printed] at read
      cases negative with
      | false =>
          simp [decimalValue, signed, numeral.head_ne] at read
          simp [Expression.eval?, printed, signed, read]
      | true =>
          simp [decimalValue, signed] at read
          simp [Expression.eval?, UnaryOp.apply, printed, signed, read]

theorem run?_append (first second : List Assignment) (memory : Memory α) :
    run? constant (first ++ second) memory = (run? constant first memory).bind (run? constant second) :=
  List.foldlM_append

/-! ## Copies -/

theorem run_copies {ι : Type} {target source : ArrayName} (assignable : target ≠ .x) (apart : source ≠ target)
    {index origin : ι → Nat} {element : ι → α} {copies : List ι} {memory : Memory α}
    (inside : ∀ copy ∈ copies, index copy < (memory.array target).size)
    (found : ∀ copy ∈ copies, (memory.array source)[origin copy]? = some (element copy)) :
    run? constant (copies.map fun copy => ⟨target, index copy, .element source (origin copy)⟩) memory =
      some (memory.replace
        (Session.place (copies.map fun copy => (index copy, element copy)) (memory.array target)) target) := by
  induction copies generalizing memory with
  | nil => simp [run?, Session.place]
  | cons copy copies ih =>
      rw [List.forall_mem_cons] at inside found
      have stored : Assignment.run? constant memory ⟨target, index copy, .element source (origin copy)⟩ =
          some (memory.replace ((memory.array target).setIfInBounds (index copy) (element copy)) target) := by
        simp [Assignment.run?, Expression.eval?, Memory.store?, found.1, assignable, inside.1]
      have rest := @ih (memory.replace ((memory.array target).setIfInBounds (index copy) (element copy)) target)
        (by simpa using inside.2) (by simpa [Memory.array_replace_ne _ _ apart] using found.2)
      rw [run?] at rest ⊢
      simp [stored, rest, Session.place]

end CSource

/-! ## Instructions -/

section Instructions

variable {α : Type} [scalar : Scalar α] {constant : String → α} {literals : List Float} {size : Nat}
  {instruction : Instruction}

theorem Instruction.eval_toExpression (reads : ReadsNumbers constant literals)
    (quotients : Scalar.QuotientLiterals α) (member : instruction.op = .const → instruction.literal ∈ literals)
    (inside : ∀ operand ∈ instruction.operands, operand < size) (x y : Array α) (value : Nat → α) :
    instruction.toExpression.eval? constant ⟨x, y, slotArray size value⟩ =
      some (instruction.result scalar.meaning value) := by
  rcases instruction with ⟨_ | op | op, out, fst, snd, literal⟩
  · exact reads.eval_numberExpression quotients (member rfl) _
  · have first : (slotArray size value)[fst]? = some (value fst) :=
      getElem?_slotArray (inside fst (by simp [operands]))
    cases op
    case recip => simp [toExpression, Expression.eval?, Memory.array, first, reads.one]; rfl
    case sq => simp [toExpression, Expression.eval?, Memory.array, first]; rfl
    case sign =>
      have zero : constant "0" = Scalar.zero := reads.zero _ (by simp)
      simp only [toExpression, Expression.eval?, Memory.array, first, reads.one, zero, Option.bind_eq_bind,
        Option.bind_some, Option.map_some, ← apply_ite (some : α → Option α)]
      rfl
    all_goals simp [toExpression, Expression.eval?, Memory.array, first]; rfl
  · have first : (slotArray size value)[fst]? = some (value fst) :=
      getElem?_slotArray (inside fst (by simp [operands]))
    have second : (slotArray size value)[snd]? = some (value snd) :=
      getElem?_slotArray (inside snd (by simp [operands]))
    simp [toExpression, Expression.eval?, Memory.array, first, second, result, Scalar.meaning]

theorem CSource.run_instructions (reads : ReadsNumbers constant literals) (quotients : Scalar.QuotientLiterals α)
    {instructions : List Instruction}
    (members : ∀ instruction ∈ instructions, instruction.op = .const → instruction.literal ∈ literals)
    (below : ∀ instruction ∈ instructions, instruction.Below size) (x y : Array α) (value : Nat → α) :
    run? constant (instructions.map fun instruction => ⟨.w, instruction.out, instruction.toExpression⟩)
        ⟨x, y, slotArray size value⟩ =
      some ⟨x, y, slotArray size (executeAll scalar.meaning instructions value)⟩ := by
  induction instructions generalizing value with
  | nil => rfl
  | cons instruction instructions ih =>
      rw [List.forall_mem_cons] at members below
      have evaluated := instruction.eval_toExpression reads quotients members.1 below.1.operands x y value
      have stored : Assignment.run? constant ⟨x, y, slotArray size value⟩
          ⟨.w, instruction.out, instruction.toExpression⟩ =
            some ⟨x, y, slotArray size (instruction.execute scalar.meaning value)⟩ := by
        simp [Assignment.run?, evaluated, Memory.store?, Memory.array, Memory.replace, below.1.out,
          setIfInBounds_slotArray below.1.out, Instruction.execute]
      have rest := ih members.2 below.2 (instruction.execute scalar.meaning value)
      rw [run?] at rest ⊢
      simp [stored, rest, executeAll]

end Instructions

/-! ## Inputs and outputs -/

namespace Tape

variable {α : Type} [scalar : Scalar α] {constant : String → α} {tape : Tape} {point : List (List α)}

omit scalar in
theorem Valid.length_point (valid : tape.Valid) (shaped : Session.Shaped tape.inputs point) :
    point.flatten.length = tape.numInputNonzeros := by
  rw [← shaped.map_snd_seedSlots, List.length_map, ← List.length_map Prod.fst, shaped.map_fst_seedSlots,
    valid.inputSlots, List.length_range]

theorem Valid.run_loads (valid : tape.Valid) (shaped : Session.Shaped tape.inputs point) (y : Array α) {w : Array α}
    (sized : w.size = tape.numSlots) :
    run? constant ((List.range tape.numInputNonzeros).map fun index => ⟨.w, index, .element .x index⟩)
        ⟨point.flatten.toArray, y, w⟩ =
      some ⟨point.flatten.toArray, y, Session.place (seedSlots tape.inputs point) w⟩ := by
  have fits := valid.numInputNonzeros_le
  have length := valid.length_point shaped
  have entries : seedSlots tape.inputs point = (List.range tape.numInputNonzeros).zip point.flatten := by
    rw [← valid.inputSlots]
    exact List.zip_of_prod shaped.map_fst_seedSlots shaped.map_snd_seedSlots
  generalize point.flatten = entered at entries length
  have copied : seedSlots tape.inputs point =
      (List.range tape.numInputNonzeros).map fun index => (index, entered[index]?.getD Scalar.zero) := by
    rw [entries]
    apply List.ext_getElem
    · simp [length]
    · intro index left right
      simp only [List.length_map, List.length_range, ← length] at right
      simp [right]
  rw [copied]
  apply run_copies (by simp) (by simp)
  · simp only [List.mem_range, Memory.array]
    omega
  · intro index inside
    rw [List.mem_range, ← length] at inside
    simp [Memory.array, inside]

theorem run_stores (below : SlotsBelow tape.numSlots tape.outputs) (x : Array α) {y : Array α}
    (sized : y.size = tape.numOutputNonzeros) (value : Nat → α) :
    run? constant ((tape.outputs.flatMap Block.slots).zipIdx.map fun (slot, index) => ⟨.y, index, .element .w slot⟩)
        ⟨x, y, slotArray tape.numSlots value⟩ =
      some ⟨x, ((tape.outputs.flatMap Block.slots).map value).toArray, slotArray tape.numSlots value⟩ := by
  have length : (tape.outputs.flatMap Block.slots).length = y.size := by
    rw [sized, length_slots, numOutputNonzeros]
  have inside : ∀ slot ∈ tape.outputs.flatMap Block.slots, slot < tape.numSlots := by
    intro slot member
    rcases List.mem_flatMap.mp member with ⟨block, blockMem, slotMem⟩
    exact below block blockMem slot slotMem
  generalize tape.outputs.flatMap Block.slots = slots at length inside
  have placed : Session.place (slots.zipIdx.map fun store => (store.2, value store.1)) y =
      (slots.map value).toArray := by
    apply Array.ext_getElem?
    intro index
    by_cases known : index < slots.length
    · have distinct : ((slots.zipIdx.map fun store => (store.2, value store.1)).map Prod.fst).Nodup := by
        simp [Function.comp_def, List.zipIdx_map_snd, List.nodup_range']
      have member : (index, value slots[index]) ∈ slots.zipIdx.map fun store => (store.2, value store.1) :=
        List.mem_map.mpr ⟨(slots[index], index), by simp [List.mk_mem_zipIdx_iff_getElem?, known], rfl⟩
      rw [Session.getElem?_place_of_mem distinct (by omega) member]
      simp [known]
    · simp [known]
      omega
  rw [← placed]
  apply run_copies (by simp) (by simp)
  · rintro ⟨slot, index⟩ member
    have known := (List.mem_zipIdx' member).1
    simp only [Memory.array]
    omega
  · rintro ⟨slot, index⟩ member
    exact getElem?_slotArray (inside slot (List.fst_mem_of_mem_zipIdx member))

def literals (tape : Tape) : List Float :=
  (tape.instructions.filter fun instruction => instruction.op = .const).map Instruction.literal

/-- The assignments of a tape copy the inputs, execute the instructions and copy the outputs. -/
theorem Valid.run_assignments (valid : tape.Valid) (quotients : Scalar.QuotientLiterals α)
    (reads : ReadsNumbers constant tape.literals) (shaped : Session.Shaped tape.inputs point) {y w : Array α}
    (sizedY : y.size = tape.numOutputNonzeros) (sizedW : w.size = tape.numSlots) {value : Nat → α}
    (loaded : Session.place (seedSlots tape.inputs point) w = slotArray tape.numSlots value) :
    ∃ final, run? constant tape.assignments ⟨point.flatten.toArray, y, w⟩ = some final ∧ final.y.toList =
      (tape.outputs.map fun block => block.slots.map (executeAll scalar.meaning tape.instructions value)).flatten := by
  have members : ∀ instruction ∈ tape.instructions, instruction.op = .const → instruction.literal ∈ tape.literals := by
    intro instruction member isConst
    exact List.mem_map_of_mem (by simp [member, isConst])
  rw [assignments, run?_append, run?_append, valid.run_loads shaped y sizedW, loaded, Option.bind_some,
    run_instructions reads quotients members valid.instructionsBelow, Option.bind_some,
    run_stores valid.outputsBelow _ sizedY]
  exact ⟨_, rfl, by rw [List.map_flatMap, List.flatMap_def]⟩

theorem Valid.answers_executeAll (valid : tape.Valid) (shaped : Session.Shaped tape.inputs point) {w : Array α}
    (sized : w.size = tape.numSlots) {value : Nat → α}
    (loaded : Session.place (seedSlots tape.inputs point) w = slotArray tape.numSlots value) (options : EvalOptions) :
    Session.Answers tape options (numbers .propagate) Scalar.one (Session.evaluate point)
      (tape.outputs.map fun block => block.slots.map (executeAll scalar.meaning tape.instructions value)) := by
  let work : Vector α tape.numSlots := ⟨w, sized⟩
  have swept : tape.primal (numbers .propagate) (Session.place (seedSlots tape.inputs point) work.toArray) =
      .ok (slotArray tape.numSlots (executeAll scalar.meaning tape.instructions value)) := by
    rw [loaded]
    exact (numbers_evaluates α).primal value valid.instructionsBelow 0
  apply Session.Answers.evaluate shaped valid.inputsBelow
  exact valid.exists_primal shaped swept (readBlocks_slotArray valid.outputsBelow)

/-- An answer under any policy is the answer where every result is accepted. -/
theorem Valid.evaluate_propagate (valid : tape.Valid) {options : EvalOptions} {policy : DomainPolicy} {one : α}
    {work : Vector α tape.numSlots} {values : List (List α)}
    (evaluated : ((Session.holding tape options (numbers policy) one work).perform
      (Session.evaluate point)).1 = .ok values) :
    ((Session.holding tape options (numbers .propagate) one work).perform (Session.evaluate point)).1 =
      .ok values := by
  rw [Session.evaluate_eq_ok valid.inputsBelow] at evaluated ⊢
  rcases evaluated with ⟨shaped, final, ran, read⟩
  exact ⟨shaped, final, primal_propagate ran, read⟩

end Tape

/-! ## Bounds -/

theorem CSource.elements_numberExpression (value : Float) : (numberExpression value).elements = [] := by
  rw [numberExpression]
  split <;> rfl

theorem Instruction.elements_toExpression {instruction : Instruction} {element : ArrayName × Nat}
    (member : element ∈ instruction.toExpression.elements) :
    ∃ operand ∈ instruction.operands, element = (.w, operand) := by
  rcases instruction with ⟨_ | op | op, out, fst, snd, literal⟩
  · rw [toExpression, elements_numberExpression] at member
    cases member
  · cases op <;> simpa [toExpression, Expression.elements, operands] using member
  · simpa [toExpression, Expression.elements, operands] using member

namespace Tape

variable {tape : Tape} {options : CodeOptions}

theorem Valid.within (valid : tape.Valid) : ∀ assignment ∈ tape.assignments, assignment.Within tape.lengths := by
  intro assignment member
  have fits := valid.numInputNonzeros_le
  simp only [assignments, List.mem_append, List.mem_map, List.mem_range] at member
  rcases member with (⟨index, inside, rfl⟩ | ⟨instruction, member, rfl⟩) | ⟨⟨slot, index⟩, member, rfl⟩
  · simp [Assignment.Within, Expression.elements, Lengths.of, lengths, inside]
    omega
  · have below := valid.instructionsBelow instruction member
    refine List.forall_mem_cons.mpr ⟨below.out, ?_⟩
    intro element isElement
    rcases instruction.elements_toExpression isElement with ⟨operand, isOperand, rfl⟩
    exact below.operands operand isOperand
  · have known : index < tape.numOutputNonzeros := by
      rw [numOutputNonzeros, ← length_slots]
      exact (List.mem_zipIdx' member).1
    rcases List.mem_flatMap.mp (List.fst_mem_of_mem_zipIdx member) with ⟨block, blockMem, slotMem⟩
    have inside := valid.outputsBelow block blockMem slot slotMem
    simpa [Assignment.Within, Expression.elements, Lengths.of, lengths, inside] using known

/-! ## Generated code -/

/-- Code cannot be generated exactly if the dialect lacks an operation, and the first such operation is named. -/
theorem generateC_eq_error_iff {cause : Error} :
    tape.generateC options = .error cause ↔ ∃ before instruction after,
      tape.instructions = before ++ instruction :: after ∧
      (∀ earlier ∈ before, earlier.op.isSupported options.dialect) ∧
      instruction.op.isSupported options.dialect = false ∧
      cause = .unsupported instruction.op options.dialect := by
  constructor
  · intro failed
    rw [generateC] at failed
    split at failed
    · rename_i instruction found
      cases failed
      rcases List.find?_eq_some_iff_append.mp found with ⟨lacks, before, after, same, earlier⟩
      exact ⟨before, instruction, after, same, by simpa using earlier, by simpa using lacks, rfl⟩
    · cases failed
  · rintro ⟨before, instruction, after, same, earlier, lacks, rfl⟩
    have found : (tape.instructions.find? fun instruction => !instruction.op.isSupported options.dialect) =
        some instruction :=
      List.find?_eq_some_iff_append.mpr ⟨by simp [lacks], before, after, same, by simpa using earlier⟩
    rw [generateC, found]
    rfl

theorem exists_generateC (supported : ∀ instruction ∈ tape.instructions, instruction.op.isSupported options.dialect) :
    ∃ code, tape.generateC options = .ok code ∧ readBody? options code.body = some tape.assignments ∧
      readAll? (CSource.declarations options) code.declarations.toList = some tape.lengths := by
  have none : (tape.instructions.find? fun instruction => !instruction.op.isSupported options.dialect) = none := by
    simpa using supported
  rw [generateC, none]
  exact ⟨_, rfl, readBody?_body supported, readAll?_declarations⟩

/-- At every point a program computes what a tape does. It is run on arrays of the lengths that the tape needs, the
first of which holds the entries of the point block after block. -/
def IsComputedBy (tape : Tape) (program : List Assignment) : Prop :=
  ∀ (α : Type) [Scalar α], Scalar.QuotientLiterals α →
    ∀ constant : String → α, ReadsNumbers constant tape.literals →
      ∀ point : List (List α), Session.Shaped tape.inputs point →
        ∀ y w : Array α, y.size = tape.lengths.y → w.size = tape.lengths.w →
          point.flatten.length = tape.lengths.x ∧
          ∃ outputs final, run? constant program ⟨point.flatten.toArray, y, w⟩ = some final ∧
            final.y.toList = outputs.flatten ∧
            ∀ (options : EvalOptions) (work : Vector α tape.numSlots),
              let evaluated := ((Session.holding tape options (numbers options.domainPolicy) Scalar.one work).perform
                (Session.evaluate point)).1
              (options.domainPolicy = .propagate → evaluated = .ok outputs) ∧
                ∀ values, evaluated = .ok values → values = outputs

theorem Valid.isComputedBy (valid : tape.Valid) : tape.IsComputedBy tape.assignments := by
  intro α scalar quotients constant reads point shaped y w sizedY sizedW
  let value : Nat → α := fun slot => (Session.place (seedSlots tape.inputs point) w)[slot]?.getD Scalar.zero
  have loaded : Session.place (seedSlots tape.inputs point) w = slotArray tape.numSlots value :=
    (slotArray_getD (by rw [Session.size_place, sizedW]; rfl) _).symm
  rcases valid.run_assignments quotients reads shaped sizedY sizedW loaded with ⟨final, ran, stored⟩
  refine ⟨valid.length_point shaped, _, final, ran, stored, ?_⟩
  intro options work
  have answered := (valid.answers_executeAll shaped sizedW loaded options).outcome work
  constructor
  · intro policy
    rw [policy]
    exact answered
  · intro values evaluated
    have accepted := valid.evaluate_propagate evaluated
    exact Except.ok.inj (accepted.symm.trans answered)

/-- The C code of a tape computes it. Take a valid tape and any options. There is no code exactly if the dialect
lacks the operation of an instruction, and the first such operation is named. Otherwise the body of the function
reads back as assignments, and its declarations as the numbers of inputs, outputs and slots. No assignment reaches
beyond them, and at every point, whatever the scratch space holds, the assignments leave in `y` the concatenation
of the output blocks that evaluating the tape gives. -/
theorem generateC_computes (validated : tape.validate = .ok ()) (options : CodeOptions) :
    (∀ cause, tape.generateC options = .error cause ↔ ∃ before instruction after,
      tape.instructions = before ++ instruction :: after ∧
      (∀ earlier ∈ before, earlier.op.isSupported options.dialect) ∧
      instruction.op.isSupported options.dialect = false ∧
      cause = .unsupported instruction.op options.dialect) ∧
    ((∀ instruction ∈ tape.instructions, instruction.op.isSupported options.dialect) →
      ∃ code program, tape.generateC options = .ok code ∧
        readBody? options code.body = some program ∧
        readAll? (CSource.declarations options) code.declarations.toList = some tape.lengths ∧
        (∀ assignment ∈ program, assignment.Within tape.lengths) ∧
        tape.IsComputedBy program) := by
  have valid := valid_of_validate validated
  refine ⟨fun cause => generateC_eq_error_iff, ?_⟩
  intro supported
  rcases exists_generateC supported with ⟨code, generated, body, declared⟩
  exact ⟨code, tape.assignments, generated, body, declared, valid.within, valid.isComputedBy⟩

end Tape

/-- A tape with a negative and an infinite literal whose slots are used again. -/
def clamped : Tape :=
  ⟨[⟨.const, 2, unusedOperand, unusedOperand, -2.5⟩, ⟨.binary .fmax, 0, 0, 2, 0⟩,
      ⟨.unary .sign, 2, 1, unusedOperand, 0⟩, ⟨.const, 1, unusedOperand, unusedOperand, 1 / 0⟩], 3,
    [⟨"x", ⟨2, [[0, 1]]⟩, [0, 1]⟩], [⟨"y", ⟨2, [[0, 1]]⟩, [2, 0]⟩, ⟨"z", .scalar, [1]⟩]⟩

theorem clamped_validate : clamped.validate = .ok () := by
  simp [clamped, Tape.validate, Tape.checkInputs, Tape.checkSlotCount, Tape.checkInputSlots, Tape.checkInstructions,
    Tape.checkOutputs, Instruction.spareOperands, Instruction.operands, Pattern.nnz, Pattern.scalar]

def documentNumber (text : String) : Float :=
  match Token.number? text.toList with
  | some (.real value) => value
  | some (.integer value) => Float.ofInt value
  | _ => 0 / 0

theorem clamped_readsNumbers : ReadsNumbers documentNumber clamped.literals where
  zero := by decide +kernel
  one := by decide +kernel
  literal := by decide +kernel

/-- The tape has no code in C89. In C99 its code computes what a session does, with NaNs as scratch space. -/
theorem clamped_computes :
    clamped.generateC { dialect := .c89 } = .error (.unsupported (.binary .fmax) .c89) ∧
    ∃ code program final outputs, clamped.generateC {} = .ok code ∧
      readBody? {} code.body = some program ∧ (∀ assignment ∈ program, assignment.Within ⟨2, 3, 3⟩) ∧
      run? documentNumber program ⟨#[-7, -3], #[0, 0, 0], #[0 / 0, 0 / 0, 0 / 0]⟩ = some final ∧
      final.y.toList = outputs.flatten ∧ Session.oneShot clamped (Session.evaluate [[-7, -3]]) = .ok outputs := by
  have inC89 := Tape.generateC_computes clamped_validate { dialect := .c89 }
  have inC99 := Tape.generateC_computes clamped_validate {}
  constructor
  · exact (inC89.1 _).mpr ⟨[_], _, _, rfl, by decide, rfl, rfl⟩
  · rcases inC99.2 (by decide) with ⟨code, program, generated, body, _, within, computes⟩
    rcases computes Float Scalar.quotientLiterals_float documentNumber clamped_readsNumbers [[-7, -3]]
      (by simp [Session.Shaped, clamped]) #[0, 0, 0] #[0 / 0, 0 / 0, 0 / 0] rfl rfl with
      ⟨_, outputs, final, ran, stored, evaluates⟩
    exact ⟨code, program, final, outputs, generated, body, within, ran, stored,
      (evaluates {} ⟨Array.replicate 3 0, rfl⟩).1 rfl⟩

end Autodiff
