import Autodiff.Proofs.CSource.Language
import Mathlib.Data.List.Chain

/-!
# How text is cut into lexemes

A piece of text is cut in the same way whatever follows it, if that begins with a character that goes on with no
word (`Cut`). The rules build the lexemes of a text from its pieces. Every finite number is printed as a numeral,
which is one lexeme also with a suffix for its type.
-/

namespace Autodiff.CSource

variable {text text' : List Char} {lexemes lexemes' : List Lexeme}

def isDelimiter (char : Char) : Bool :=
  !(char.isAlphanum || char == '_' || char == '.')

def isPunctuation (char : Char) : Bool :=
  !(char.isWhitespace || isNameStart char || char.isDigit)

/-- A text is cut into given lexemes, whatever follows behind a delimiter. -/
def Cut (text : List Char) (lexemes : List Lexeme) : Prop :=
  ∀ char rest, isDelimiter char → scan? (text ++ char :: rest) = (scan? (char :: rest)).map (lexemes ++ ·)

namespace Cut

theorem nil : Cut [] [] := by
  intro char rest delimited
  simp

theorem append (first : Cut text lexemes) (second : Cut text' lexemes') (delimited : text'.head?.all isDelimiter) :
    Cut (text ++ text') (lexemes ++ lexemes') := by
  intro char rest charDelimited
  have scanned := second char rest charDelimited
  cases text' with
  | nil =>
      rw [List.nil_append] at scanned
      rw [List.append_nil, first char rest charDelimited]
      conv_lhs => rw [scanned]
      simp [Function.comp_def]
  | cons next text' =>
      rw [List.append_assoc, List.cons_append, first next _ delimited, ← List.cons_append, scanned]
      simp [Function.comp_def]

theorem blank (cut : Cut text lexemes) (char : Char) (isBlank : char.isWhitespace) : Cut (char :: text) lexemes := by
  intro other rest delimited
  rw [List.cons_append, scan?, if_pos isBlank, cut other rest delimited]

theorem symbol (cut : Cut text lexemes) (char : Char) (punctuation : isPunctuation char)
    (alone : isOperator char = false) : Cut (char :: text) (.symbol char :: lexemes) := by
  intro other rest delimited
  simp [isPunctuation] at punctuation
  simp [scan?, punctuation, alone, cut other rest delimited, Function.comp_def]

theorem operator (cut : Cut text lexemes) (char : Char) (punctuation : isPunctuation char)
    (alone : text.head?.any fun next => !isOperator next) : Cut (char :: text) (.symbol char :: lexemes) := by
  intro other rest delimited
  have scanned := cut other rest delimited
  cases text with
  | nil => cases alone
  | cons next text =>
      simp at alone scanned
      simp [isPunctuation] at punctuation
      rw [List.cons_append, scan?]
      simp [punctuation, alone, scanned, Function.comp_def]

end Cut

/-! ## Words -/

theorem wordAfter_append {isNumber : Bool} {last char : Char} {word rest : List Char}
    (chain : (last :: word).IsChain fun before after => continues isNumber before after)
    (ends : ∀ before, (last :: word).getLast? = some before → continues isNumber before char = false) :
    wordAfter isNumber last (word ++ char :: rest) = word := by
  induction word generalizing last with
  | nil => simp [wordAfter, ends last rfl]
  | cons first word ih =>
      rw [List.isChain_cons_cons] at chain
      rw [List.cons_append, wordAfter, if_pos chain.1, ih chain.2]
      intro before isLast
      exact ends before (by rwa [List.getLast?_cons_cons])

theorem not_isWhitespace {char : Char} (word : char.isAlphanum ∨ char = '_') : char.isWhitespace = false := by
  rcases word with alphanumeric | rfl
  · rw [Bool.eq_false_iff]
    intro blank
    simp [Char.isWhitespace] at blank
    rcases blank with ((rfl | rfl) | rfl) | rfl <;> exact absurd alphanumeric (by decide)
  · rfl

theorem not_isNameStart {char : Char} (digit : char.isDigit) : isNameStart char = false := by
  have inside : 48 ≤ char.toNat ∧ char.toNat ≤ 57 := by
    simpa [Char.isDigit, UInt32.le_iff_toNat_le] using digit
  have noLetter : char.isAlpha = false := by
    unfold Char.isAlpha Char.isUpper Char.isLower
    simp [UInt32.le_iff_toNat_le]
    omega
  have noUnderscore : char ≠ '_' := by
    rintro rfl
    exact absurd digit (by decide)
  simp [isNameStart, noLetter, noUnderscore]

theorem continues_delimiter {isNumber : Bool} {last char : Char} (delimited : isDelimiter char)
    (noMark : isNumber → last ≠ 'e' ∧ last ≠ 'E') : continues isNumber last char = false := by
  simp [isDelimiter] at delimited
  cases isNumber <;> simp_all [continues]

structure IsName (text : List Char) : Prop where
  start : text.head?.any isNameStart
  all : text.all fun char => char.isAlphanum || char == '_'

theorem IsName.cut (isName : IsName text) : Cut text [.name (String.ofList text)] := by
  rcases isName with ⟨start, all⟩
  simp only [List.all_eq_true, Bool.or_eq_true, beq_iff_eq] at all
  cases text with
  | nil => cases start
  | cons first rest =>
      intro char more delimited
      have chain : (first :: rest).IsChain fun before after => continues false before after := by
        apply List.Pairwise.isChain
        apply List.pairwise_of_forall_mem_list
        intro before _ after member
        simpa [continues] using all after member
      have word : wordAfter false first (rest ++ char :: more) = rest :=
        wordAfter_append chain fun before _ => continues_delimiter delimited nofun
      simp only [List.head?_cons, Option.any_some] at start
      rw [List.cons_append, scan?]
      simp [not_isWhitespace (all first (by simp)), start, word]

/-- What is cut as a number: it starts with a digit, and a sign behind it is no part of it. -/
structure IsNumber (text : List Char) : Prop where
  start : text.head?.any Char.isDigit
  chain : text.IsChain fun before after => continues true before after
  last : ∀ last, text.getLast? = some last → last ≠ 'e' ∧ last ≠ 'E'

theorem IsNumber.cut (isNumber : IsNumber text) : Cut text [.number (String.ofList text)] := by
  rcases isNumber with ⟨start, chain, last⟩
  cases text with
  | nil => cases start
  | cons first rest =>
      intro char more delimited
      have word : wordAfter true first (rest ++ char :: more) = rest :=
        wordAfter_append chain fun before isLast => continues_delimiter delimited fun _ => last before isLast
      simp only [List.head?_cons, Option.any_some] at start
      have noBlank : first.isWhitespace = false := not_isWhitespace (.inl (by simp [Char.isAlphanum, start]))
      rw [List.cons_append, scan?]
      simp [noBlank, not_isNameStart start, start, word]

/-! ## Numerals -/

structure IsDigits (text : List Char) : Prop where
  nonempty : text ≠ []
  all : ∀ char ∈ text, char.isDigit

/-- Runs of digits that are joined by points and marks of exponents. -/
inductive Numeral : List Char → Prop where
  | digits {text : List Char} (isDigits : IsDigits text) : Numeral text
  | join {text joint digits : List Char} (numeral : Numeral text)
      (isJoint : joint ∈ [['.'], ['e'], ['e', '-']]) (isDigits : IsDigits digits) : Numeral (text ++ joint ++ digits)

theorem continues_digit {isNumber : Bool} {last char : Char} (digit : char.isDigit) :
    continues isNumber last char := by
  simp [continues, Char.isAlphanum, digit]

namespace IsDigits

theorem singleton {char : Char} (digit : char.isDigit) : IsDigits [char] :=
  ⟨by simp, by simpa using digit⟩

theorem start (isDigits : IsDigits text) : text.head?.any Char.isDigit := by
  cases text with
  | nil => exact absurd rfl isDigits.nonempty
  | cons first rest => simpa using isDigits.all first (by simp)

theorem last (isDigits : IsDigits text) : text.getLast?.any Char.isDigit := by
  rw [List.getLast?_eq_some_getLast isDigits.nonempty]
  simpa using isDigits.all _ (List.getLast_mem isDigits.nonempty)

theorem chain (isDigits : IsDigits text) : text.IsChain fun before after => continues true before after := by
  apply List.Pairwise.isChain
  apply List.pairwise_of_forall_mem_list
  intro _ _ after member
  exact continues_digit (isDigits.all after member)

theorem toDigits (number : Nat) : IsDigits (Nat.toDigits 10 number) :=
  ⟨Nat.toDigits_ne_nil, fun _ member => Nat.isDigit_of_mem_toDigits (by decide) (by decide) member⟩

end IsDigits

namespace Numeral

theorem start (numeral : Numeral text) : text.head?.any Char.isDigit := by
  induction numeral with
  | digits isDigits => exact isDigits.start
  | join numeral isJoint isDigits ih =>
      rename_i text joint digits
      cases text with
      | nil => cases ih
      | cons first rest => exact ih

theorem last (numeral : Numeral text) : text.getLast?.any Char.isDigit := by
  cases numeral with
  | digits isDigits => exact isDigits.last
  | join numeral isJoint isDigits =>
      rw [List.getLast?_append_of_ne_nil _ isDigits.nonempty]
      exact isDigits.last

theorem chain (numeral : Numeral text) : text.IsChain fun before after => continues true before after := by
  induction numeral with
  | digits isDigits => exact isDigits.chain
  | join numeral isJoint isDigits ih =>
      rename_i text joint digits
      have joins : ∀ before, ∀ after ∈ digits.head?, continues true before after := by
        intro before after isFirst
        have digit := isDigits.start
        rw [isFirst] at digit
        exact continues_digit digit
      have joints : (joint.IsChain fun before after => continues true before after) ∧
          ∀ before, ∀ after ∈ joint.head?, continues true before after := by
        simp only [List.mem_cons, List.not_mem_nil, or_false] at isJoint
        rcases isJoint with rfl | rfl | rfl <;> simp [continues]
      apply List.isChain_append.mpr
      refine ⟨?_, isDigits.chain, fun before _ => joins before⟩
      apply List.isChain_append.mpr
      exact ⟨ih, joints.1, fun before _ => joints.2 before⟩

theorem isNumber (numeral : Numeral text) : IsNumber text := by
  refine ⟨numeral.start, numeral.chain, ?_⟩
  intro last isLast
  have digit := numeral.last
  rw [isLast, Option.any_some] at digit
  constructor <;> rintro rfl <;> exact absurd digit (by decide)

end Numeral

theorem IsNumber.concat {char : Char} (isNumber : IsNumber text) (alphanumeric : char.isAlphanum)
    (noMark : char ≠ 'e' ∧ char ≠ 'E') : IsNumber (text ++ [char]) where
  start := by
    cases text with
    | nil => cases isNumber.start
    | cons first rest => exact isNumber.start
  chain := by
    apply List.isChain_append.mpr
    refine ⟨isNumber.chain, List.isChain_singleton _, ?_⟩
    rintro before _ after ⟨⟩
    simp [continues, alphanumeric]
  last last isLast := by
    rw [List.getLast?_concat, Option.some.injEq] at isLast
    exact isLast ▸ noMark

theorem Numeral.cut (numeral : Numeral text) {suffix : List Char} (isSuffix : suffix ∈ [[], ['f'], ['L']]) :
    Cut (text ++ suffix) [.number (String.ofList (text ++ suffix))] := by
  apply IsNumber.cut
  simp only [List.mem_cons, List.not_mem_nil, or_false] at isSuffix
  rcases isSuffix with rfl | rfl | rfl
  · rw [List.append_nil]
    exact numeral.isNumber
  · exact numeral.isNumber.concat (by decide) (by decide)
  · exact numeral.isNumber.concat (by decide) (by decide)

theorem Numeral.withoutSuffix (numeral : Numeral text) {suffix : List Char} (isSuffix : suffix ∈ [[], ['f'], ['L']]) :
    withoutSuffix (String.ofList (text ++ suffix)) = String.ofList text := by
  simp only [List.mem_cons, List.not_mem_nil, or_false] at isSuffix
  rcases isSuffix with rfl | rfl | rfl
  · have digit := numeral.last
    rw [CSource.withoutSuffix, List.append_nil, String.toList_ofList, if_neg]
    rcases isLast : text.getLast? with _ | last
    · simp
    · rw [isLast, Option.any_some] at digit
      simp only [Option.any_some, List.contains_eq_mem, decide_eq_true_eq, List.mem_cons, List.not_mem_nil, or_false]
      rintro (rfl | rfl | rfl | rfl) <;> exact absurd digit (by decide)
  · simp [CSource.withoutSuffix]
  · simp [CSource.withoutSuffix]

/-! ## Printed numbers -/

theorem isDigits_split (decimal : Decimal) :
    IsDigits decimal.split.1.toList ∧ ∀ char ∈ decimal.split.2.toList, char.isDigit := by
  have digits := IsDigits.toDigits decimal.digits
  have zeros : ∀ count, ∀ char ∈ (zeroDigits count).toList, char.isDigit := by
    intro count char member
    simp [zeroDigits] at member
    rw [member.2]
    rfl
  have positive := List.length_pos_iff.mpr digits.nonempty
  simp only [Decimal.split, Nat.toString_eq_repr, Nat.toList_repr]
  split
  · simp only [String.toList_append, String.toList_ofList]
    refine ⟨⟨by simp, ?_⟩, by simp⟩
    intro char member
    rcases List.mem_append.mp member with isDigit | isZero
    · exact digits.all char isDigit
    · exact zeros _ char isZero
  · split
    · simp only [String.toList_ofList]
      refine ⟨⟨?_, fun char member => digits.all char (List.mem_of_mem_take member)⟩,
        fun char member => digits.all char (List.mem_of_mem_drop member)⟩
      rw [ne_eq, List.take_eq_nil_iff]
      rintro (noPoint | noDigits)
      · omega
      · exact digits.nonempty noDigits
    · refine ⟨⟨by simp, by simp⟩, ?_⟩
      intro char member
      simp only [String.toList_append, String.toList_ofList] at member
      rcases List.mem_append.mp member with isZero | isDigit
      · exact zeros _ char isZero
      · exact digits.all char isDigit

theorem numeral_withFraction (decimal : Decimal) : Numeral decimal.withFraction.toList := by
  have digits := isDigits_split decimal
  rw [Decimal.withFraction]
  split
  · rename_i whole same
    rw [same] at digits
    have numeral : Numeral (whole.toList ++ ['.'] ++ ['0']) := .join (.digits digits.1) (by simp) (.singleton rfl)
    simpa using numeral
  · rename_i whole fraction notEmpty same
    rw [same] at digits
    have isFraction : IsDigits fraction.toList := by
      refine ⟨?_, digits.2⟩
      rw [ne_eq, String.toList_eq_nil_iff]
      exact notEmpty
    have numeral : Numeral (whole.toList ++ ['.'] ++ fraction.toList) := .join (.digits digits.1) (by simp) isFraction
    simpa using numeral

theorem numeral_scientific (decimal : Decimal) : Numeral decimal.scientific.toList := by
  have digits := IsDigits.toDigits decimal.digits
  simp only [Decimal.scientific, Nat.toString_eq_repr, Nat.toList_repr]
  generalize Nat.toDigits 10 decimal.digits = all at digits
  have first : Numeral (all.take 1) := by
    refine .digits ⟨?_, fun char member => digits.all char (List.mem_of_mem_take member)⟩
    simpa using digits.nonempty
  have mantissa : Numeral (String.ofList (all.take 1) ++
      if (String.ofList (all.drop 1)).isEmpty then "" else "." ++ String.ofList (all.drop 1)).toList := by
    split
    · simpa using first
    · rename_i notEmpty
      have isFraction : IsDigits (all.drop 1) := by
        refine ⟨?_, fun char member => digits.all char (List.mem_of_mem_drop member)⟩
        intro isEmpty
        rw [isEmpty] at notEmpty
        exact notEmpty rfl
      have numeral : Numeral (all.take 1 ++ ['.'] ++ all.drop 1) := .join first (by simp) isFraction
      simpa using numeral
  rcases decimal.leadingPower with power | power
  · have numeral := mantissa.join (by simp : ['e'] ∈ _) (.toDigits power)
    simpa [Int.repr] using numeral
  · have numeral := mantissa.join (by simp : ['e', '-'] ∈ _) (.toDigits (power + 1))
    simpa [Int.repr] using numeral

/-- A finite number is printed as a numeral, with a sign in front if it is negative. -/
theorem exists_numeral {value : Float} {negative : Bool} {magnitude : Dyadic}
    (finite : FloatParts.ofFloat value = .finite negative magnitude) :
    ∃ text, Numeral text ∧ literalText value = signed negative (String.ofList text) := by
  simp only [literalText, finite]
  split
  · exact ⟨['0'] ++ ['.'] ++ ['0'], .join (.digits (.singleton rfl)) (by simp) (.singleton rfl), rfl⟩
  · split
    · exact ⟨_, numeral_scientific _, by rw [String.ofList_toList]⟩
    · exact ⟨_, numeral_withFraction _, by rw [String.ofList_toList]⟩

end Autodiff.CSource
