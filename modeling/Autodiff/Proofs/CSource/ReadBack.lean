import Autodiff.Proofs.CSource.Grammar
import Autodiff.Proofs.CSource.Lexemes
import Mathlib.Data.List.Forall2

/-!
# Generated code reads back

The text that is written for an instruction is read as the expression that computes it
(`Instruction.toExpression`), and the body of a function as the assignments of its tape (`Tape.assignments`).
-/

namespace Autodiff

variable {name : String} {array : ArrayName}

namespace CSource

variable {dialect : Dialect} {text text' : List Char} {value value' : Expression} {options : CodeOptions}

/-! ## Texts of expressions -/

/-- A text is cut into lexemes that are read as an expression at a level of the grammar. -/
def Spells (level : List Lexeme → Expression → Prop) (text : List Char) (value : Expression) : Prop :=
  ∃ lexemes, Cut text lexemes ∧ level lexemes value

namespace Spells

theorem operand (primary : Spells (IsPrimary dialect) text value) : Spells (IsOperand dialect) text value := by
  rcases primary with ⟨lexemes, cut, isPrimary⟩
  exact ⟨lexemes, cut, isPrimary.operand⟩

theorem expression (operand : Spells (IsOperand dialect) text value) : Spells (IsExpression dialect) text value := by
  rcases operand with ⟨lexemes, cut, isOperand⟩
  exact ⟨lexemes, cut, isOperand.product.sum.expression⟩

theorem parenthesized (inner : Spells (IsExpression dialect) text value) :
    Spells (IsPrimary dialect) ('(' :: (text ++ [')'])) value := by
  rcases inner with ⟨lexemes, cut, isExpression⟩
  exact ⟨_, (cut.append (Cut.nil.symbol ')' rfl rfl) rfl).symbol '(' rfl rfl, isExpression.parenthesized⟩

theorem negation (operand : Spells (IsPrimary dialect) text value)
    (alone : text.head?.any fun next => !isOperator next) :
    Spells (IsOperand dialect) ('-' :: text) (.unary .neg value) := by
  rcases operand with ⟨lexemes, cut, isPrimary⟩
  exact ⟨_, cut.operator '-' rfl alone, isPrimary.negation⟩

theorem arithmetic (lhs : Spells (IsOperand dialect) text value) (char : Char)
    (rhs : Spells (IsOperand dialect) text' value') {op : BinaryOp}
    (isSymbol : product? (.symbol char) = some op ∨ sum? (.symbol char) = some op)
    (alone : text'.head?.any fun next => !isOperator next) :
    Spells (IsExpression dialect) (text ++ char :: text') (.binary op value value') := by
  rcases lhs with ⟨lexemes, cut, isOperand⟩
  rcases rhs with ⟨lexemes', cut', isOperand'⟩
  have symbol : isPunctuation char ∧ isDelimiter char := by
    unfold product? sum? at isSymbol
    rcases isSymbol with isSymbol | isSymbol <;> split at isSymbol <;> simp_all <;> decide
  refine ⟨_, cut.append (cut'.operator char symbol.1 alone) symbol.2, ?_⟩
  rcases isSymbol with isProduct | isSum
  · exact (isOperand.product_cons isProduct isOperand').sum.expression
  · exact (isOperand.product.sum_cons isSum isOperand'.product).expression

theorem choice (operand : Spells (IsOperand dialect) text value) (char : Char)
    {choose : Expression → Expression → Expression → Expression → Expression}
    (compares : comparison? (.symbol char) = some choose) {yes no : List Char} {first second : Expression}
    (isFirst : Spells (IsExpression dialect) yes first) (isSecond : Spells (IsExpression dialect) no second) :
    Spells (IsExpression dialect) (text ++ char :: '0' :: ' ' :: '?' :: ' ' :: (yes ++ ' ' :: ':' :: ' ' :: no))
      (choose value (.number "0") first second) := by
  rcases operand with ⟨lexemes, cut, isOperand⟩
  rcases isFirst with ⟨yesLexemes, yesCut, isFirst⟩
  rcases isSecond with ⟨noLexemes, noCut, isSecond⟩
  have symbol : isPunctuation char ∧ isDelimiter char := by
    unfold comparison? at compares
    split at compares <;> simp_all <;> decide
  have zero : Numeral ['0'] := .digits (.singleton rfl)
  have branches := (yesCut.append (((noCut.blank ' ' rfl).operator ':' rfl rfl).blank ' ' rfl) rfl).blank ' ' rfl
  have condition := ((zero.cut (by simp : [] ∈ _)).append ((branches.operator '?' rfl rfl).blank ' ' rfl) rfl)
  refine ⟨_, cut.append (condition.operator char symbol.1 rfl) symbol.2, ?_⟩
  have isZero : IsOperand dialect [.number "0"] (.number "0") := (isPrimary_number "0").operand
  simpa using isOperand.product.sum.choice compares isZero.product.sum isFirst isSecond

theorem call {op : UnaryOp} (isName : IsName name.toList) (known : (functions dialect).lookup name = some (.unary op))
    (operand : Spells (IsExpression dialect) text value) :
    Spells (IsPrimary dialect) (name.toList ++ '(' :: (text ++ [')'])) (.unary op value) := by
  rcases operand with ⟨lexemes, cut, isExpression⟩
  refine ⟨_, isName.cut.append ((cut.append (Cut.nil.symbol ')' rfl rfl) rfl).symbol '(' rfl rfl) rfl, ?_⟩
  simpa using isExpression.call known

theorem call_pair {op : BinaryOp} (isName : IsName name.toList)
    (known : (functions dialect).lookup name = some (.binary op)) (lhs : Spells (IsExpression dialect) text value)
    (rhs : Spells (IsExpression dialect) text' value') :
    Spells (IsPrimary dialect) (name.toList ++ '(' :: (text ++ ',' :: ' ' :: (text' ++ [')'])))
      (.binary op value value') := by
  rcases lhs with ⟨lexemes, cut, isExpression⟩
  rcases rhs with ⟨lexemes', cut', isExpression'⟩
  have closed := (cut'.append (Cut.nil.symbol ')' rfl rfl) rfl).blank ' ' rfl
  refine ⟨_, isName.cut.append ((cut.append (closed.symbol ',' rfl rfl) rfl).symbol '(' rfl rfl) rfl, ?_⟩
  simpa using isExpression.call_pair known isExpression'

end Spells

/-! ## Cells and numbers -/

theorem cut_element (isName : IsName name.toList) (index : Nat) :
    Cut (name.toList ++ '[' :: (Nat.toDigits 10 index ++ [']']))
      [.name name, .symbol '[', .number index.repr, .symbol ']'] := by
  have number : Cut (Nat.toDigits 10 index) [.number index.repr] := by
    simpa [Nat.repr] using (Numeral.digits (.toDigits index)).cut (by simp : [] ∈ _)
  have bracket := (number.append (Cut.nil.symbol ']' rfl rfl) rfl).symbol '[' rfl rfl
  simpa using isName.cut.append bracket rfl

theorem isName_arrayName (named : arrayNamed? name = some array) :
    IsName name.toList := by
  unfold arrayNamed? at named
  split at named
  case h_4 => cases named
  all_goals exact ⟨by decide, by decide⟩

theorem spells_element (named : arrayNamed? name = some array) (index : Nat) :
    Spells (IsPrimary dialect) (name.toList ++ '[' :: (Nat.toDigits 10 index ++ [']'])) (.element array index) :=
  ⟨_, cut_element (isName_arrayName named) index, isPrimary_element named index⟩

theorem spells_cell (slot : Nat) : Spells (IsPrimary dialect) (cellText slot).toList (.element .w slot) := by
  have element : Spells (IsPrimary dialect) _ _ := spells_element (rfl : arrayNamed? "w" = some .w) slot
  simpa [cellText] using element

theorem literalSuffix_mem (options : CodeOptions) : (literalSuffix options).toList ∈ [[], ['f'], ['L']] := by
  rw [literalSuffix]
  split <;> decide

theorem Numeral.spells (numeral : Numeral text) {suffix : List Char} (isSuffix : suffix ∈ [[], ['f'], ['L']]) :
    Spells (IsPrimary dialect) (text ++ suffix) (.number (String.ofList text)) := by
  refine ⟨_, numeral.cut isSuffix, ?_⟩
  rw [← numeral.withoutSuffix isSuffix]
  exact isPrimary_number _

def numberExpression (value : Float) : Expression :=
  match FloatParts.ofFloat value with
  | .nan => .binary .div (.number "0.0") (.number "0.0")
  | .infinite false => .binary .div (.number "1.0") (.number "0.0")
  | .infinite true => .binary .div (.unary .neg (.number "1.0")) (.number "0.0")
  | .finite false _ => .number (literalText value)
  | .finite true _ => .unary .neg (.number (String.ofList (literalText value).toList.tail))

theorem not_isOperator {char : Char} (digit : char.isDigit) : isOperator char = false := by
  rw [Bool.eq_false_iff]
  intro operator
  simp only [isOperator, String.reduceToList, List.contains_eq_mem, decide_eq_true_eq, List.mem_cons,
    List.not_mem_nil, or_false] at operator
  rcases operator with rfl | rfl | rfl | rfl | rfl | rfl | rfl | rfl | rfl | rfl | rfl | rfl | rfl | rfl | rfl <;>
    exact absurd digit (by decide)

theorem Numeral.alone (numeral : Numeral text) (suffix : List Char) :
    (text ++ suffix).head?.any fun next => !isOperator next := by
  have start := numeral.start
  cases text with
  | nil => cases start
  | cons first rest => simpa using not_isOperator (by simpa using start)

theorem spells_number (options : CodeOptions) (value : Float) :
    Spells (IsPrimary dialect) (numberText options value).toList (numberExpression value) := by
  have zero : Spells (IsPrimary dialect) ['0', '.', '0'] (.number "0.0") :=
    (Numeral.join (.digits (.singleton rfl)) (by simp : ['.'] ∈ _) (.singleton rfl)).spells (by simp : [] ∈ _)
  have one : Spells (IsPrimary dialect) ['1', '.', '0'] (.number "1.0") :=
    (Numeral.join (.digits (.singleton rfl)) (by simp : ['.'] ∈ _) (.singleton rfl)).spells (by simp : [] ∈ _)
  rw [numberText, numberExpression]
  cases parts : FloatParts.ofFloat value with
  | nan => simpa using (zero.operand.arithmetic '/' zero.operand (.inl rfl) rfl).parenthesized
  | infinite negative =>
      cases negative with
      | false => simpa using (one.operand.arithmetic '/' zero.operand (.inl rfl) rfl).parenthesized
      | true => simpa using ((one.negation rfl).arithmetic '/' zero.operand (.inl rfl) rfl).parenthesized
  | finite negative magnitude =>
      rcases exists_numeral parts with ⟨text, numeral, printed⟩
      have spells : Spells (IsPrimary dialect) _ _ := numeral.spells (literalSuffix_mem options)
      cases negative with
      | false => simpa [printed, signed] using spells
      | true => simpa [printed, signed] using (spells.negation (numeral.alone _)).expression.parenthesized

/-! ## Library functions -/

def inlined : List Opcode :=
  [.const, .unary .neg, .unary .recip, .unary .sq, .unary .sign, .binary .add, .binary .sub, .binary .mul, .binary .div]

theorem mathSuffix_mem (options : CodeOptions) : mathSuffix options ∈ typeSuffixes options.dialect := by
  rw [mathSuffix]
  split <;> simp_all [typeSuffixes]
  cases options.dialect <;> simp

theorem mem_all (op : Opcode) : op ∈ Opcode.all := by
  rcases op with _ | op | op
  · decide
  · cases op <;> decide
  · cases op <;> decide

theorem lookup_mnemonic {op : Opcode} (supported : op.isSupported options.dialect) (called : op ∉ inlined) :
    (functions options.dialect).lookup (op.mnemonic ++ mathSuffix options) = some op := by
  have table : ∀ dialect ∈ Dialect.all, ∀ suffix ∈ typeSuffixes dialect, ∀ op ∈ Opcode.all,
      op.isSupported dialect → op ∉ inlined → (functions dialect).lookup (op.mnemonic ++ suffix) = some op := by
    decide +kernel
  have known : options.dialect ∈ Dialect.all := by cases options.dialect <;> decide
  exact table _ known _ (mathSuffix_mem options) _ (mem_all op) supported called

theorem isName_of_lookup {op : Opcode} (known : (functions dialect).lookup name = some op) :
    IsName name.toList := by
  have table : ∀ dialect ∈ Dialect.all, ∀ entry ∈ functions dialect,
      entry.1.toList.head?.any isNameStart ∧ entry.1.toList.all fun char => char.isAlphanum || char == '_' := by
    decide +kernel
  have isDialect : dialect ∈ Dialect.all := by cases dialect <;> decide
  have entry : (name, op) ∈ functions dialect := by
    rcases List.lookup_eq_some_iff.mp known with ⟨before, after, same, _⟩
    simp [same]
  exact ⟨(table _ isDialect _ entry).1, (table _ isDialect _ entry).2⟩

end CSource

/-! ## Instructions -/

open CSource

def Instruction.toExpression (instruction : Instruction) : Expression :=
  let first := .element .w instruction.fst
  match instruction.op with
  | .const => numberExpression instruction.literal
  | .unary .recip => .binary .div (.number "1.0") first
  | .unary .sq => .binary .mul first first
  | .unary .sign => .choice (.number "0") first (.number "1.0")
      (.choice first (.number "0") (.unary .neg (.number "1.0")) first)
  | .unary op => .unary op first
  | .binary op => .binary op first (.element .w instruction.snd)

namespace Instruction

variable {options : CodeOptions} {instruction : Instruction}

theorem numberText_one (options : CodeOptions) : numberText options 1 = "1.0" ++ literalSuffix options := by
  have parts : FloatParts.ofFloat 1 = .finite false ⟨1 <<< 52, -52⟩ := by decide +kernel
  have printed : literalText 1 = "1.0" := by decide +kernel
  simp [numberText, parts, printed]

theorem spells_one (options : CodeOptions) :
    Spells (IsPrimary options.dialect) (numberText options 1).toList (.number "1.0") := by
  have isOne : numberExpression 1 = .number "1.0" := by decide +kernel
  rw [← isOne]
  exact spells_number options 1

theorem cell_alone (slot : Nat) : (cellText slot).toList.head?.any fun next => !isOperator next := by
  simp [cellText]
  decide

/-- Four functions of one operand are written out, the others are calls. -/
theorem spells_unary {op : UnaryOp} (isUnary : instruction.op = .unary op)
    (supported : Opcode.isSupported (.unary op) options.dialect) :
    Spells (IsExpression options.dialect) (instruction.toC.text options).toList instruction.toExpression := by
  rcases instruction with ⟨_, out, fst, snd, literal⟩
  cases isUnary
  have operand : Spells (IsPrimary options.dialect) _ _ := spells_cell fst
  have one := spells_one options
  by_cases written : Opcode.unary op ∈ inlined
  · simp only [inlined, List.mem_cons, Opcode.unary.injEq, reduceCtorEq, List.not_mem_nil, or_false,
      false_or] at written
    rcases written with rfl | rfl | rfl | rfl
    · have text := (operand.negation (cell_alone fst)).expression.parenthesized.operand.expression
      simpa [toC, toExpression, Expr.text] using text
    · have text := one.operand.arithmetic '/' operand.operand (.inl rfl) (cell_alone fst)
      simpa [toC, toExpression, Expr.text, Term.text] using text
    · have text := operand.operand.arithmetic '*' operand.operand (.inl rfl) (cell_alone fst)
      simpa [toC, toExpression, Expr.text, Term.text] using text
    · have positive : (numberText options 1).toList.head?.any fun next => !isOperator next := by
        simp [numberText_one]
        decide
      have negative := operand.operand.choice '<' rfl (one.negation positive).expression operand.operand.expression
      have text := operand.operand.choice '>' rfl one.operand.expression negative.parenthesized.operand.expression
      simpa [toC, toExpression, Expr.text] using text.parenthesized.operand.expression
  · have known := lookup_mnemonic supported written
    have isCall : toC ⟨.unary op, out, fst, snd, literal⟩ = .call op.mnemonic [fst] ∧
        toExpression ⟨.unary op, out, fst, snd, literal⟩ = .unary op (.element .w fst) := by
      cases op <;> simp [inlined] at written <;> exact ⟨rfl, rfl⟩
    have text := (Spells.call (isName_of_lookup known) known operand.operand.expression).operand.expression
    rw [isCall.1, isCall.2]
    simpa [Expr.text, Opcode.mnemonic] using text

/-- The operations of arithmetic are infix, the other functions of two operands are calls. -/
theorem spells_binary {op : BinaryOp} (isBinary : instruction.op = .binary op)
    (supported : Opcode.isSupported (.binary op) options.dialect) :
    Spells (IsExpression options.dialect) (instruction.toC.text options).toList instruction.toExpression := by
  rcases instruction with ⟨_, out, fst, snd, literal⟩
  cases isBinary
  have first : Spells (IsPrimary options.dialect) _ _ := spells_cell fst
  have second : Spells (IsPrimary options.dialect) _ _ := spells_cell snd
  cases infixed : op.symbol? with
  | some symbol =>
      have isSymbol : ∃ char, symbol.toList = [char] ∧
          (product? (.symbol char) = some op ∨ sum? (.symbol char) = some op) := by
        cases op <;> cases infixed <;> exact ⟨_, rfl, by decide⟩
      rcases isSymbol with ⟨char, spelled, isSymbol⟩
      have text := first.operand.arithmetic char second.operand isSymbol (cell_alone snd)
      simpa [toC, toExpression, infixed, Expr.text, Term.text, spelled] using text
  | none =>
      have called : Opcode.binary op ∉ inlined := by
        cases op <;> cases infixed <;> decide
      have known := lookup_mnemonic supported called
      have text := Spells.call_pair (isName_of_lookup known) known first.operand.expression second.operand.expression
      simpa [toC, toExpression, infixed, Expr.text, Opcode.mnemonic] using text.operand.expression

theorem spells_toC (supported : instruction.op.isSupported options.dialect) :
    Spells (IsExpression options.dialect) (instruction.toC.text options).toList instruction.toExpression := by
  cases isOp : instruction.op with
  | const =>
      have text : Spells (IsPrimary options.dialect) _ _ := spells_number options instruction.literal
      simpa [toC, toExpression, isOp, Expr.text, Term.text] using text.operand.expression
  | unary op => exact spells_unary isOp (isOp ▸ supported)
  | binary op => exact spells_binary isOp (isOp ▸ supported)

end Instruction

/-! ## Lines and bodies -/

namespace CSource

variable {dialect : Dialect} {text : List Char} {value : Expression}

/-- A line is read as an assignment, whatever follows in the next line. -/
structure ReadsLine (dialect : Dialect) (line : List Char) (result : Assignment) : Prop where
  indented : line.head? = some ' '
  read : ∃ name lexemes, Cut line (.name name :: lexemes) ∧
    ∀ rest ≠ [], (assignment dialect).run (.name name :: (lexemes ++ rest)) = some (result, rest)

theorem Spells.readsLine (spells : Spells (IsExpression dialect) text value) (named : arrayNamed? name = some array)
    (index : Nat) :
    ReadsLine dialect (' ' :: ' ' :: (name.toList ++ '[' :: (Nat.toDigits 10 index ++ ']' :: ' ' :: '=' :: ' ' ::
      (text ++ [';', '\n'])))) ⟨array, index, value⟩ := by
  rcases spells with ⟨lexemes, cut, isValue⟩
  have assigned := (cut.append ((Cut.nil.blank '\n' rfl).symbol ';' rfl rfl) rfl).blank ' ' rfl
  have line := (cut_element (isName_arrayName named) index).append ((assigned.operator '=' rfl rfl).blank ' ' rfl) rfl
  refine ⟨rfl, name, .symbol '[' :: .number index.repr :: .symbol ']' :: .symbol '=' :: (lexemes ++ [.symbol ';']),
    ?_, ?_⟩
  · simpa using (line.blank ' ' rfl).blank ' ' rfl
  · intro rest continued
    simpa using isValue.run_assignment named index continued

theorem read_lines {lines : List (List Char)} {results : List Assignment}
    (reads : List.Forall₂ (ReadsLine dialect) lines results) :
    ∃ lexemes, Cut lines.flatten lexemes ∧ lines.length ≤ lexemes.length ∧
      ∀ fuel, lines.length < fuel →
        (assignments dialect fuel).run (lexemes ++ [.symbol '\x7d']) = some (results, []) := by
  induction reads with
  | nil =>
      refine ⟨[], .nil, by simp, ?_⟩
      intro fuel enough
      obtain ⟨fuel, rfl⟩ := Nat.exists_eq_add_of_lt enough
      simp [assignments]
  | cons line rest ih =>
      rcases ih with ⟨lexemes, cut, fits, read⟩
      rcases line with ⟨indented, name, first, firstCut, readFirst⟩
      refine ⟨.name name :: first ++ lexemes, firstCut.append cut ?_, ?_, ?_⟩
      · cases rest with
        | nil => rfl
        | cons nextLine _ => simp [nextLine.indented, isDelimiter]
      · simp
        omega
      · intro fuel enough
        cases fuel with
        | zero => cases enough
        | succ fuel =>
            have next := readFirst (lexemes ++ [.symbol '\x7d']) (by simp)
            have others := read fuel (Nat.lt_of_succ_lt_succ enough)
            simp [assignments, next, others]

end CSource

namespace Tape

variable {tape : Tape} {options : CodeOptions}

def assignments (tape : Tape) : List Assignment :=
  (List.range tape.numInputNonzeros).map (fun index => ⟨.w, index, .element .x index⟩) ++
    tape.instructions.map (fun instruction => ⟨.w, instruction.out, instruction.toExpression⟩) ++
    (tape.outputs.flatMap Block.slots).zipIdx.map fun (slot, index) => ⟨.y, index, .element .w slot⟩

theorem reads_statements (supported : ∀ instruction ∈ tape.instructions, instruction.op.isSupported options.dialect) :
    List.Forall₂ (ReadsLine options.dialect) (tape.statements.map fun statement => (statement.line options).toList)
      tape.assignments := by
  have unquoted : ∀ text : String, toString text = text := fun _ => rfl
  rw [statements, assignments, List.map_append, List.map_append]
  refine List.rel_append (List.rel_append ?_ ?_) ?_ <;>
    simp only [List.map_map, List.forall₂_map_left_iff, List.forall₂_map_right_iff, List.forall₂_same]
  · intro index _
    have value : Spells (IsPrimary options.dialect) _ _ := spells_element (rfl : arrayNamed? "x" = some .x) index
    simpa [Statement.line, unquoted] using value.operand.expression.readsLine (rfl : arrayNamed? "w" = some .w) index
  · intro instruction member
    have value := instruction.spells_toC (supported instruction member)
    simpa [Statement.line, cellText] using value.readsLine (rfl : arrayNamed? "w" = some .w) instruction.out
  · rintro ⟨slot, index⟩ _
    have value : Spells (IsPrimary options.dialect) _ _ := spells_cell slot
    simpa [Statement.line, unquoted] using value.operand.expression.readsLine (rfl : arrayNamed? "y" = some .y) index

theorem readBody?_body (supported : ∀ instruction ∈ tape.instructions, instruction.op.isSupported options.dialect) :
    readBody? options (signature options ++ " \x7b\n" ++
      String.join (tape.statements.map (Statement.line options)) ++ "\x7d\n") = some tape.assignments := by
  rcases read_lines (reads_statements supported) with ⟨lexemes, cut, fits, read⟩
  have scanned := cut '\x7d' ['\n'] rfl
  have brace : scan? ['\x7d', '\n'] = some [.symbol '\x7d'] := by
    simp +decide [scan?]
  rw [brace, Option.map_some] at scanned
  have body : (signature options ++ " \x7b\n" ++ String.join (tape.statements.map (Statement.line options)) ++
      "\x7d\n").toList = (signature options ++ " \x7b\n").toList ++
        ((tape.statements.map fun statement => (statement.line options).toList).flatten ++ ['\x7d', '\n']) := by
    simp [List.flatMap_def, Function.comp_def]
  have enough : (tape.statements.map fun statement => (statement.line options).toList).length < lexemes.length + 1 :=
    Nat.lt_succ_of_le fits
  rw [readBody?, body, run_expect]
  simp [scanned, readAll?, read _ enough]

theorem run_declaredLength (options : CodeOptions) (ending : String) (length : Nat) (rest : List Char) :
    (declaredLength options ending).run ((lengthMacro options (ending ++ " ") length).toList ++ rest) =
      some (length, rest) := by
  have digits : (Nat.toDigits 10 length ++ '\n' :: rest).takeWhile Char.isDigit = Nat.toDigits 10 length := by
    rw [List.takeWhile_append_of_pos (IsDigits.toDigits length).all]
    simp
  have line : (lengthMacro options (ending ++ " ") length).toList ++ rest =
      ("#define " ++ uppercase options.functionName ++ ending ++ " ").toList ++
        (Nat.toDigits 10 length ++ (['\n'] ++ rest)) := by
    simp [lengthMacro]
  have spelled : decimal? (String.ofList (Nat.toDigits 10 length)) = some length := decimal?_repr length
  rw [line, declaredLength]
  simp [digits, spelled, -String.toList_append]

def lengths (tape : Tape) : Lengths :=
  ⟨tape.numInputNonzeros, tape.numOutputNonzeros, tape.numSlots⟩

theorem readAll?_declarations :
    readAll? (declarations options) ("#include <math.h>\n\n" ++
      lengthMacro options "_N_IN " tape.numInputNonzeros ++ lengthMacro options "_N_OUT " tape.numOutputNonzeros ++
      lengthMacro options "_SZ_W " tape.numSlots ++ "\n" ++ signature options ++ ";\n").toList =
      some tape.lengths := by
  have text : ("#include <math.h>\n\n" ++
      lengthMacro options "_N_IN " tape.numInputNonzeros ++ lengthMacro options "_N_OUT " tape.numOutputNonzeros ++
      lengthMacro options "_SZ_W " tape.numSlots ++ "\n" ++ signature options ++ ";\n").toList =
      "#include <math.h>\n\n".toList ++ ((lengthMacro options ("_N_IN" ++ " ") tape.numInputNonzeros).toList ++
        ((lengthMacro options ("_N_OUT" ++ " ") tape.numOutputNonzeros).toList ++
          ((lengthMacro options ("_SZ_W" ++ " ") tape.numSlots).toList ++
            (("\n" ++ signature options ++ ";\n").toList ++ [])))) := by
    simp
  rw [readAll?, text, declarations]
  simp only [StateT.run_bind, run_expect, run_declaredLength, Option.bind_eq_bind, Option.bind_some, StateT.run_pure,
    Option.pure_def, lengths]

end Tape

end Autodiff
