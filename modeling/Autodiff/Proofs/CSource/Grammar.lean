import Autodiff.Proofs.CSource.Language

/-!
# The grammar of expressions

Which lexemes are read as which expression, level by level, whatever follows them. The depth that a reader
needs is bounded by the number of lexemes, so the bounds add up along the rules.
-/

namespace Autodiff.CSource

variable {array : ArrayName} {name : String} {operator? : Lexeme → Option BinaryOp} {lexeme : Lexeme}
  {dialect : Dialect} {lexemes lexemes' : List Lexeme} {value value' : Expression}

@[simp] theorem run_expect {σ : Type} [DecidableEq σ] (expected rest : List σ) :
    (expect expected).run (expected ++ rest) = some ((), rest) := by
  simp [expect, StateT.run, List.isPrefixOf_iff_prefix]

@[simp] theorem run_expect_cons {σ : Type} [DecidableEq σ] (head : σ) (rest : List σ) :
    (expect [head]).run (head :: rest) = some ((), rest) :=
  run_expect [head] rest

@[simp] theorem run_next {σ : Type} (head : σ) (rest : List σ) :
    (next : Reader σ σ).run (head :: rest) = some (head, rest) := rfl

@[simp] theorem decimal?_repr (number : Nat) : decimal? number.repr = some number := by
  simp [decimal?]

variable (dialect lexemes value) in
def IsPrimary : Prop :=
  ∀ fuel, lexemes.length ≤ fuel → ∀ rest,
    (primary dialect (expression dialect fuel)).run (lexemes ++ rest) = some (value, rest)

variable (dialect lexemes value) in
def IsOperand : Prop :=
  ∀ fuel, lexemes.length ≤ fuel → ∀ rest,
    (withSign (primary dialect (expression dialect fuel))).run (lexemes ++ rest) = some (value, rest)

variable (dialect lexemes value) in
def IsProduct : Prop :=
  ∀ fuel, lexemes.length + 1 ≤ fuel → ∀ rest : List Lexeme, rest.head?.bind product? = none →
    (product dialect (expression dialect fuel) fuel).run (lexemes ++ rest) = some (value, rest)

variable (dialect lexemes value) in
def IsSum : Prop :=
  ∀ fuel, lexemes.length + 1 ≤ fuel → ∀ rest : List Lexeme, rest.head?.bind product? = none →
    rest.head?.bind sum? = none →
      (sum dialect (expression dialect fuel) fuel).run (lexemes ++ rest) = some (value, rest)

def isEnd (char : Char) : Bool :=
  [';', ',', ')', '?', ':'].contains char

variable (dialect lexemes value) in
def IsExpression : Prop :=
  ∀ fuel, lexemes.length + 2 ≤ fuel → ∀ char rest, isEnd char →
    (expression dialect fuel).run (lexemes ++ .symbol char :: rest) = some (value, .symbol char :: rest)

theorem run_indexed (named : arrayNamed? name = some array) (index : Nat) (rest : List Lexeme) :
    (indexed name).run (.number index.repr :: .symbol ']' :: rest) = some ((array, index), rest) := by
  simp [indexed, named]

theorem isPrimary_element (named : arrayNamed? name = some array) (index : Nat) :
    IsPrimary dialect [.name name, .symbol '[', .number index.repr, .symbol ']'] (.element array index) := by
  intro fuel fits rest
  simp [primary, run_indexed named]

theorem isPrimary_number (spelling : String) :
    IsPrimary dialect [.number spelling] (.number (withoutSuffix spelling)) := by
  intro fuel fits rest
  simp [primary]

theorem IsExpression.parenthesized (inner : IsExpression dialect lexemes value) :
    IsPrimary dialect (.symbol '(' :: lexemes ++ [.symbol ')']) value := by
  intro fuel fits rest
  simp only [List.length_append, List.length_cons, List.length_nil] at fits
  have read := inner fuel (by omega) ')' rest rfl
  simp [primary, read]

theorem IsExpression.call {op : UnaryOp} (known : (functions dialect).lookup name = some (.unary op))
    (operand : IsExpression dialect lexemes value) :
    IsPrimary dialect (.name name :: .symbol '(' :: lexemes ++ [.symbol ')']) (.unary op value) := by
  intro fuel fits rest
  simp only [List.length_append, List.length_cons, List.length_nil] at fits
  have read := operand fuel (by omega) ')' rest rfl
  simp [primary, called, known, read]

theorem IsExpression.call_pair {op : BinaryOp} (known : (functions dialect).lookup name = some (.binary op))
    (lhs : IsExpression dialect lexemes value) (rhs : IsExpression dialect lexemes' value') :
    IsPrimary dialect (.name name :: .symbol '(' :: lexemes ++ .symbol ',' :: lexemes' ++ [.symbol ')'])
      (.binary op value value') := by
  intro fuel fits rest
  simp only [List.length_append, List.length_cons, List.length_nil] at fits
  have readRight := rhs fuel (by omega) ')' rest rfl
  have readLeft := lhs fuel (by omega) ',' (lexemes' ++ .symbol ')' :: rest) rfl
  simp [primary, called, known, readLeft, readRight]

theorem IsPrimary.operand (primary : IsPrimary dialect lexemes value) : IsOperand dialect lexemes value := by
  intro fuel fits rest
  have read := primary fuel fits rest
  simp only [withSign, StateT.run_bind, StateT.run_get, Option.pure_def, Option.bind_eq_bind, Option.bind_some]
  split
  · rename_i isSign
    -- A sign would not have been read as the start of a primary expression.
    rcases input : lexemes ++ rest with _ | ⟨first, more⟩
    · simp [input] at isSign
    · simp only [input, List.head?_cons, Option.some.injEq] at isSign
      have unread : (CSource.primary dialect (CSource.expression dialect fuel)).run (.symbol '-' :: more) = none := rfl
      rw [input, isSign, unread] at read
      cases read
  · exact read

theorem IsPrimary.negation (primary : IsPrimary dialect lexemes value) :
    IsOperand dialect (.symbol '-' :: lexemes) (.unary .neg value) := by
  intro fuel fits rest
  have read := primary fuel (Nat.le_of_succ_le fits) rest
  simp [withSign, read]

theorem run_chain_none {operand : Reader Lexeme Expression} {fuel : Nat} (enough : 1 ≤ fuel) {rest : List Lexeme}
    (ends : rest.head?.bind operator? = none) :
    (chain operator? operand fuel value).run rest = some (value, rest) := by
  obtain ⟨fuel, rfl⟩ := Nat.exists_eq_add_of_le' enough
  simp [chain, ends]

theorem run_chain_one {operand : Reader Lexeme Expression} {fuel : Nat} (enough : 2 ≤ fuel) {op : BinaryOp}
    (isOperator : operator? lexeme = some op) {input rest : List Lexeme}
    (read : operand.run input = some (value', rest)) (ends : rest.head?.bind operator? = none) :
    (chain operator? operand fuel value).run (lexeme :: input) = some (.binary op value value', rest) := by
  obtain ⟨fuel, rfl⟩ := Nat.exists_eq_add_of_le' enough
  simp [chain, isOperator, read, ends]

theorem IsOperand.product (operand : IsOperand dialect lexemes value) : IsProduct dialect lexemes value := by
  intro fuel fits rest noProduct
  have read := operand fuel (by omega) rest
  simp [CSource.product, read, run_chain_none (by omega : 1 ≤ fuel) noProduct]

theorem IsOperand.product_cons (lhs : IsOperand dialect lexemes value) {op : BinaryOp}
    (isProduct : product? lexeme = some op) (rhs : IsOperand dialect lexemes' value') :
    IsProduct dialect (lexemes ++ lexeme :: lexemes') (.binary op value value') := by
  intro fuel fits rest noProduct
  simp only [List.length_append, List.length_cons] at fits
  have readLeft := lhs fuel (by omega) (lexeme :: (lexemes' ++ rest))
  have readRight := rhs fuel (by omega) rest
  simp [CSource.product, readLeft, run_chain_one (by omega : 2 ≤ fuel) isProduct readRight noProduct]

theorem IsProduct.sum (operand : IsProduct dialect lexemes value) : IsSum dialect lexemes value := by
  intro fuel fits rest noProduct noSum
  have read := operand fuel fits rest noProduct
  simp [CSource.sum, read, run_chain_none (by omega : 1 ≤ fuel) noSum]

theorem IsProduct.sum_cons (lhs : IsProduct dialect lexemes value) {op : BinaryOp} (isSum : sum? lexeme = some op)
    (rhs : IsProduct dialect lexemes' value') :
    IsSum dialect (lexemes ++ lexeme :: lexemes') (.binary op value value') := by
  intro fuel fits rest noProduct noSum
  simp only [List.length_append, List.length_cons] at fits
  have notProduct : product? lexeme = none := by
    unfold sum? at isSum
    split at isSum <;> simp_all [product?]
  have readLeft := lhs fuel (by omega) (lexeme :: (lexemes' ++ rest)) (by simpa using notProduct)
  have readRight := rhs fuel (by omega) rest noProduct
  simp [CSource.sum, readLeft, run_chain_one (by omega : 2 ≤ fuel) isSum readRight noSum]

theorem IsSum.expression (sum : IsSum dialect lexemes value) : IsExpression dialect lexemes value := by
  intro fuel fits char rest ends
  obtain ⟨fuel, rfl⟩ := Nat.exists_eq_add_of_le' (Nat.le_of_add_left_le fits : 1 ≤ fuel)
  have read := sum fuel (by omega) (.symbol char :: rest)
  simp only [isEnd, List.contains_eq_mem, List.mem_cons, List.not_mem_nil, or_false, decide_eq_true_eq] at ends
  rcases ends with rfl | rfl | rfl | rfl | rfl <;> simp [CSource.expression, read rfl rfl, comparison?]

theorem IsSum.choice (lhs : IsSum dialect lexemes value)
    {choose : Expression → Expression → Expression → Expression → Expression}
    (compares : comparison? lexeme = some choose) (rhs : IsSum dialect lexemes' value') {yes no : List Lexeme}
    {first second : Expression} (isFirst : IsExpression dialect yes first)
    (isSecond : IsExpression dialect no second) :
    IsExpression dialect (lexemes ++ lexeme :: lexemes' ++ .symbol '?' :: yes ++ .symbol ':' :: no)
      (choose value value' first second) := by
  intro fuel fits char rest ends
  obtain ⟨fuel, rfl⟩ := Nat.exists_eq_add_of_le' (Nat.le_of_add_left_le fits : 1 ≤ fuel)
  simp only [List.length_append, List.length_cons] at fits
  have noOperator : product? lexeme = none ∧ sum? lexeme = none := by
    unfold comparison? at compares
    split at compares <;> simp_all [product?, sum?]
  have readSecond := isSecond fuel (by omega) char rest ends
  have readFirst := isFirst fuel (by omega) ':' (no ++ .symbol char :: rest) rfl
  have readRight := rhs fuel (by omega)
    (.symbol '?' :: (yes ++ .symbol ':' :: (no ++ .symbol char :: rest))) rfl rfl
  have readLeft := lhs fuel (by omega)
    (lexeme :: (lexemes' ++ .symbol '?' :: (yes ++ .symbol ':' :: (no ++ .symbol char :: rest))))
    (by simpa using noOperator.1) (by simpa using noOperator.2)
  simp [CSource.expression, readLeft, compares, readRight, readFirst, readSecond]

theorem IsExpression.run_assignment (isValue : IsExpression dialect lexemes value)
    (named : arrayNamed? name = some array) (index : Nat) {rest : List Lexeme} (continued : rest ≠ []) :
    (assignment dialect).run (.name name :: .symbol '[' :: .number index.repr :: .symbol ']' :: .symbol '=' ::
      (lexemes ++ .symbol ';' :: rest)) = some (⟨array, index, value⟩, rest) := by
  have fits : lexemes.length + 2 ≤ (lexemes ++ .symbol ';' :: rest).length := by
    have positive := List.length_pos_iff.mpr continued
    simp
    omega
  have read := isValue _ fits ';' rest rfl
  simp [assignment, run_indexed named, -List.length_append, -List.length_cons, read]

end Autodiff.CSource
