/-
Module: HeaderBindings.Proofs.NumericLiterals
Purpose: Numeric literals of C, whole and floating, with their exact values: which texts are literals, and
  that what a module writes for a literal has the literal's value.
Main exports: Number.exactValue?, Spelling.FloatingLiteral, Spelling.NumericLiteral,
  Spelling.NumericLiteral.signed?_of_spells, Spelling.NumericLiteral.exists_spells_of_signed?,
  Spelling.NumericLiteral.exactValue?_moduleText
-/
import Mathlib.Algebra.Order.Field.Rat
import Mathlib.Tactic.FieldSimp
import Mathlib.Tactic.NormNum
import HeaderBindings.Number.DecimalText
import HeaderBindings.Proofs.LiteralForms

namespace HeaderBindings

/-! ### Numbers in the text of a module -/

namespace Number

open Spelling Text

/-- The number that a decimal stands for. -/
def Decimal.value (decimal : Decimal) : ℚ := decimal.digits * 10 ^ decimal.exponent

/-- The whole number that a text without sign stands for in a module: digits behind the letters of their
base, or decimal digits, which begin with a zero only if they are all zeros. One underscore may stand
between digits. -/
def wholeNumber? (text : List Char) : Option Nat :=
  let (base, onlyZero) := resolveBase 0 text
  let body := afterBaseLetters base text
  if body.head? == some '_' then none
  else match digitRun base false body with
    | some (digits, []) =>
        if digits.isEmpty || (onlyZero && ofDigits base digits != 0) then none
        else some (ofDigits base digits)
    | _ => none

/-- The number that a text with an optional sign stands for in a module, exactly: a whole number, or a
decimal with a point or an exponent. -/
def exactValue? (text : List Char) : Option ℚ :=
  let (negative, body) := takeSign text
  let magnitude : Option ℚ := match wholeNumber? body with
    | some n => some n
    | none => (joinDigits false body).bind fun joined =>
        if joined.all Char.isDigit then none else (readUnsigned joined).map Decimal.value
  magnitude.map fun value => if negative then -value else value

theorem wholeNumber?_moduleMark (literal : IntegerLiteral) :
    wholeNumber? (literal.base.moduleMark ++ literal.digits) = some literal.magnitude := by
  obtain ⟨onlyZero, settled, zero, off⟩ := resolveBase_moduleMark literal
  have noUnderscore : ∀ c ∈ literal.base.digits, c ≠ '_' := by
    rcases literal.base with _ | _ | (_ | _) | (_ | _) <;> decide
  have starts : ¬ literal.digits.head? = some '_' := fun head =>
    noUnderscore '_' (literal.inBase _ (List.mem_of_mem_head? head)) rfl
  have run : digitRun literal.base.radix false literal.digits
      = some (literal.digits.map literal.base.digitValue, []) := by
    rw [← List.append_nil literal.digits, digitRun_eq literal.inBase (by simp), List.append_nil]
  unfold wholeNumber?
  rw [settled]
  dsimp only
  rw [off, if_neg (by simpa using starts), run]
  dsimp only
  rw [if_neg]
  · rfl
  · simpa [literal.nonempty, IntegerLiteral.magnitude] using zero

theorem takeSign_eq (sign : LiteralSign) {body : List Char}
    (noSign : ∀ c ∈ body.head?, c ≠ '+' ∧ c ≠ '-') :
    takeSign (sign.text ++ body) = (sign == .minus, body) := by
  cases sign with
  | plus => rfl
  | minus => rfl
  | absent =>
      unfold takeSign LiteralSign.text
      split
      · next starts => exact absurd rfl (noSign '-' (by simpa using congrArg List.head? starts)).2
      · next starts => exact absurd rfl (noSign '+' (by simpa using congrArg List.head? starts)).1
      · rfl

theorem joinDigits_eq_self {text : List Char} (noUnderscore : '_' ∉ text) (afterDigit : Bool) :
    joinDigits afterDigit text = some text := by
  induction text generalizing afterDigit with
  | nil => rfl
  | cons c rest ih =>
      have other : (c == '_') = false := by
        rw [beq_eq_false_iff_ne]
        rintro rfl
        exact noUnderscore List.mem_cons_self
      rw [joinDigits, other, if_neg (by decide), ih (List.not_mem_of_not_mem_cons noUnderscore),
        Option.map_some]

theorem ofDigits_append (base : Nat) (front back : List Nat) :
    ofDigits base (front ++ back) = ofDigits base front * base ^ back.length + ofDigits base back := by
  induction back using List.reverseRecOn with
  | nil => simp [ofDigits]
  | append_singleton others digit ih =>
      have last (digits : List Nat) :
          ofDigits base (digits ++ [digit]) = ofDigits base digits * base + digit := by
        rw [ofDigits, List.foldl_append]
        rfl
      calc ofDigits base (front ++ (others ++ [digit]))
          = ofDigits base (front ++ others) * base + digit := by rw [← List.append_assoc, last]
        _ = ofDigits base front * (base ^ others.length * base)
              + (ofDigits base others * base + digit) := by
            rw [ih, Nat.add_mul, Nat.mul_assoc, Nat.add_assoc]
        _ = _ := by rw [last, List.length_append, List.length_singleton, Nat.pow_succ]

theorem digitsValue_append (front back : List Char) :
    digitsValue (front ++ back) = digitsValue front * 10 ^ back.length + digitsValue back := by
  rw [digitsValue, List.map_append, ofDigits_append, List.length_map]
  rfl

end Number

namespace Spelling

open Text Number IntegerLiteral

/-! ### Floating literals of C -/

/-- The exponent of a floating literal: a small or a capital letter, a sign and decimal digits. -/
structure LiteralExponent where
  capital : Bool
  sign : LiteralSign
  digits : List Char
  nonempty : digits ≠ []
  inBase : ∀ c ∈ digits, c ∈ LiteralBase.decimal.digits

namespace LiteralExponent

/-- An exponent as C writes it. -/
def text (exponent : LiteralExponent) : List Char :=
  exponentLetter exponent.capital :: (exponent.sign.text ++ exponent.digits)

/-- The power of ten that an exponent names. -/
def value (exponent : LiteralExponent) : Int := exponent.sign.apply (digitsValue exponent.digits)

end LiteralExponent

/-- A decimal floating literal of C with a sign, without its suffix: digits before or behind a point, and an
exponent; either the point or the exponent may be missing. -/
structure FloatingLiteral where
  sign : LiteralSign
  whole : List Char
  fraction : Option (List Char)
  exponent : Option LiteralExponent
  wholeInBase : ∀ c ∈ whole, c ∈ LiteralBase.decimal.digits
  fractionInBase : ∀ digits ∈ fraction, ∀ c ∈ digits, c ∈ LiteralBase.decimal.digits
  hasDigits : whole ≠ [] ∨ ∃ digits ∈ fraction, digits ≠ []
  marked : fraction ≠ none ∨ exponent ≠ none

namespace FloatingLiteral

variable (literal : FloatingLiteral)

/-- The exponent of a literal as C writes it, if it has one. -/
def exponentText : List Char := (literal.exponent.map LiteralExponent.text).getD []

/-- What follows the digits before the point: the point with a fraction, and the exponent. -/
def tail : List Char := pointText literal.fraction ++ literal.exponentText

/-- A literal without its sign. -/
def body : List Char := literal.whole ++ literal.tail

/-- A literal as C writes it, and as a module does. -/
def text : List Char := literal.sign.text ++ literal.body

/-- The digits behind the point. -/
def fractionDigits : List Char := literal.fraction.getD []

/-- The power of ten that a literal names. -/
def exponentValue : Int := (literal.exponent.map LiteralExponent.value).getD 0

/-- The value of a literal: its digits before the point and the fraction behind it, times the power of ten
that it names, under its sign. -/
def value : ℚ :=
  literal.sign.apply 1 *
    ((digitsValue literal.whole + digitsValue literal.fractionDigits / 10 ^ literal.fractionDigits.length)
      * 10 ^ literal.exponentValue)

/-! ### The characters of a floating literal -/

/-- The characters that floating literals consist of behind their sign. -/
def bodyLetters : List Char := "0123456789.eE+-".toList

/-- What follows the digits before the point begins with the point or with the letter of the exponent. -/
theorem exists_tail_eq : ∃ c rest, literal.tail = c :: rest ∧ c ∈ ".eE".toList := by
  rw [tail, exponentText]
  rcases noFraction : literal.fraction with _ | digits
  · rcases noExponent : literal.exponent with _ | exponent
    · exact literal.marked.elim (absurd noFraction) (absurd noExponent)
    · exact ⟨_, _, rfl, by cases exponent.capital <;> decide⟩
  · exact ⟨_, _, rfl, by decide⟩

theorem mem_bodyLetters_of_mem_exponentText {c : Char} (member : c ∈ literal.exponentText) :
    c ∈ bodyLetters := by
  have digits : ∀ c ∈ LiteralBase.decimal.digits, c ∈ bodyLetters := by decide
  rw [exponentText] at member
  rcases has : literal.exponent with _ | exponent <;> rw [has] at member
  · cases member
  · rcases List.mem_cons.mp member with rfl | behind
    · cases exponent.capital <;> decide
    · rcases List.mem_append.mp behind with inSign | digit
      · have signs : ∀ c ∈ exponent.sign.text, c ∈ bodyLetters := by
          cases exponent.sign <;> decide
        exact signs c inSign
      · exact digits c (exponent.inBase c digit)

theorem mem_bodyLetters_of_mem_body {c : Char} (member : c ∈ literal.body) : c ∈ bodyLetters := by
  have digits : ∀ c ∈ LiteralBase.decimal.digits, c ∈ bodyLetters := by decide
  rcases List.mem_append.mp member with inWhole | inTail
  · exact digits c (literal.wholeInBase c inWhole)
  · rcases List.mem_append.mp inTail with inFraction | inExponent
    · rcases fraction : literal.fraction with _ | shown
      · rw [fraction] at inFraction
        cases inFraction
      · rw [fraction] at inFraction
        rcases List.mem_cons.mp inFraction with rfl | digit
        · decide
        · exact digits c (literal.fractionInBase shown fraction c digit)
    · exact literal.mem_bodyLetters_of_mem_exponentText inExponent

/-- A literal begins with a digit or a point behind its sign. -/
theorem noSign_of_body (suffix : List Char) :
    ∀ c ∈ (literal.body ++ suffix).head?, c ≠ '+' ∧ c ≠ '-' := by
  have digits : ∀ c ∈ LiteralBase.decimal.digits, c ≠ '+' ∧ c ≠ '-' := by decide
  have marks : ∀ c ∈ ".eE".toList, c ≠ '+' ∧ c ≠ '-' := by decide
  intro c head
  cases starts : literal.whole with
  | nil =>
      obtain ⟨mark, rest, eq, isMark⟩ := literal.exists_tail_eq
      rw [body, starts, List.nil_append, eq] at head
      cases head
      exact marks c isMark
  | cons digit rest =>
      rw [body, starts] at head
      cases head
      exact digits c (literal.wholeInBase c (by rw [starts]; exact List.mem_cons_self))

/-! ### Recognition -/

variable {suffix : List Char}

/-- No digit follows the suffix, and no exponent is in it. -/
theorem plain_of_isFloatingSuffix (isSuffix : IsFloatingSuffix suffix) :
    (∀ c ∈ suffix.head?, isDecimal c = false) ∧ exponent? suffix = none := by
  rcases isSuffix with rfl | ⟨letter, isLetter, rfl⟩
  · exact ⟨by simp, rfl⟩
  · have plain : ∀ letter ∈ "fFlL".toList,
        isDecimal letter = false ∧ exponent? [letter] = none := by decide
    refine ⟨?_, (plain letter isLetter).2⟩
    rintro c ⟨⟩
    exact (plain letter isLetter).1

theorem mantissa?_body (isSuffix : IsFloatingSuffix suffix) :
    mantissa? (literal.body ++ suffix)
      = some (literal.whole ++ pointText literal.fraction, literal.exponentText ++ suffix) := by
  apply mantissa?_eq_some_iff.mpr
  refine ⟨literal.whole, literal.fraction, ⟨?_, ?_, literal.hasDigits⟩,
    ?_, by simp [body, tail], rfl⟩
  · exact fun c member => LiteralBase.decimal.shows_of_mem_digits (literal.wholeInBase c member)
  · exact fun digits has c member =>
      LiteralBase.decimal.shows_of_mem_digits (literal.fractionInBase digits has c member)
  · rw [exponentText]
    rcases noExponent : literal.exponent with _ | exponent
    · rcases noFraction : literal.fraction with _ | digits
      · exact literal.marked.elim (absurd noFraction) (absurd noExponent)
      · exact (plain_of_isFloatingSuffix isSuffix).1
    · have letter : exponentLetter exponent.capital ∈ ['e', 'E'] := by cases exponent.capital <;> decide
      have fails : isDecimal (exponentLetter exponent.capital) = false := by
        cases exponent.capital <;> decide
      rcases literal.fraction with _ | digits
      · exact ⟨_, rfl, letter⟩
      · rintro c ⟨⟩
        exact fails

theorem exponent?_exponentText (isSuffix : IsFloatingSuffix suffix) :
    (exponent? (literal.exponentText ++ suffix)).getD ([], literal.exponentText ++ suffix)
      = (literal.exponentText, suffix) := by
  obtain ⟨noDigit, noExponent⟩ := plain_of_isFloatingSuffix isSuffix
  rw [exponentText]
  rcases literal.exponent with _ | exponent
  · simp [noExponent]
  · have read : exponent? (exponent.text ++ suffix) = some (exponent.text, suffix) :=
      exponent?_eq_some_iff.mpr ⟨exponent.capital, exponent.sign, exponent.digits, exponent.nonempty,
        fun c member => LiteralBase.decimal.shows_of_mem_digits (exponent.inBase c member), noDigit,
        by simp [LiteralExponent.text], rfl⟩
    simp [read]

theorem floating?_body (isSuffix : IsFloatingSuffix suffix) :
    floating? (literal.body ++ suffix) = some literal.body := by
  have whole : literal.whole ++ pointText literal.fraction ++ literal.exponentText = literal.body := by
    simp [body, tail]
  have letters : ∀ letter ∈ "fFlL".toList, isFloatingSuffix letter = true := by decide
  rw [floating?, literal.mantissa?_body isSuffix]
  simp only [Option.bind_eq_bind, Option.bind_some, literal.exponent?_exponentText isSuffix, whole]
  rcases isSuffix with rfl | ⟨letter, isLetter, rfl⟩
  · rfl
  · simp [letters letter isLetter]

/-- A floating literal has not the form of an integer: a point or the letter of an exponent is in it, which
is no digit but of base sixteen, and the letter of that base is not. -/
theorem not_integerForm (isSuffix : IsFloatingSuffix suffix) (base : LiteralBase)
    (digits others : List Char) : ¬ IntegerForm base digits others (literal.body ++ suffix) := by
  intro form
  obtain ⟨mark, rest, tail, isMark⟩ := literal.exists_tail_eq
  have known : ∀ c ∈ literal.body ++ suffix, c ∈ bodyLetters ++ "fFlL".toList := by
    intro c member
    rcases List.mem_append.mp member with inBody | inSuffix
    · exact List.mem_append_left _ (literal.mem_bodyLetters_of_mem_body inBody)
    · rcases isSuffix with rfl | ⟨letter, isLetter, rfl⟩
      · cases inSuffix
      · obtain rfl := List.mem_singleton.mp inSuffix
        exact List.mem_append_right _ isLetter
  have hasMark : mark ∈ literal.body ++ suffix := by
    rw [body, tail]
    simp
  rw [form.parts] at known hasMark
  have other : ∀ c ∈ ".eE".toList, c ∉ suffixLetters := by decide
  have noDigit {base : LiteralBase}
      (marks : ∀ c ∈ ".eE".toList, c ∉ base.mark ∧ base.shows c = false)
      (shown : ∀ c ∈ digits, base.shows c = true) (hasMark : mark ∈ base.mark ++ (digits ++ others)) :
      False := by
    rcases List.mem_append.mp hasMark with inMark | behind
    · exact (marks mark isMark).1 inMark
    · rcases List.mem_append.mp behind with digit | inSuffix
      · exact absurd ((shown mark digit).symm.trans (marks mark isMark).2) (by decide)
      · exact other mark isMark (form.isSuffix mark inSuffix)
  have shown := form.shown
  rcases base with _ | _ | capital | (_ | _)
  case hexadecimal =>
    have letter := known (if capital then 'X' else 'x') (by simp [LiteralBase.mark])
    revert letter
    cases capital <;> decide
  all_goals exact noDigit (by decide) shown hasMark

theorem unsigned?_body (isSuffix : IsFloatingSuffix suffix) :
    unsigned? (literal.body ++ suffix) = some literal.body := by
  have floating := literal.floating?_body isSuffix
  cases found : unsigned? (literal.body ++ suffix) with
  | none =>
      rw [unsigned?, Option.or_eq_none_iff, Option.or_eq_none_iff, Option.or_eq_none_iff,
        Option.or_eq_none_iff] at found
      exact found.2.2.2.2.symm.trans floating
  | some shown =>
      rcases integerForm_or_floating found with ⟨base, digits, others, form⟩ | same
      · exact absurd form (literal.not_integerForm isSuffix base digits others)
      · exact same.symm.trans floating

theorem signed?_eq (isSuffix : IsFloatingSuffix suffix) :
    signed? (literal.text ++ suffix) = some literal.text := by
  rw [signed?, text, List.append_assoc, splitSign_eq literal.sign (literal.noSign_of_body suffix)]
  simp [literal.unsigned?_body isSuffix]

theorem isFloating_text : isFloating literal.text = true := by
  have suffixless := literal.floating?_body (Or.inl rfl)
  rw [List.append_nil] at suffixless
  have noSign := literal.noSign_of_body []
  rw [List.append_nil] at noSign
  rw [isFloating, text, splitSign_eq literal.sign noSign, suffixless, Option.isSome_some]

/-! ### Value -/

theorem plain_bodyLetters :
    ∀ c ∈ bodyLetters, baseOfLetter? c = none ∧ c ≠ '_' := by decide

/-- A floating literal is no whole number: its digits in base ten are not all of it. -/
theorem wholeNumber?_body : wholeNumber? literal.body = none := by
  have noBase : ∀ c ∈ literal.body, baseOfLetter? c = none :=
    fun c member => (plain_bodyLetters c (literal.mem_bodyLetters_of_mem_body member)).1
  have settled : ∃ onlyZero, resolveBase 0 literal.body = (10, onlyZero) := by
    unfold resolveBase
    split
    · next rest starts =>
        rw [if_neg (by decide)]
        cases rest with
        | nil => exact ⟨_, rfl⟩
        | cons letter others =>
            have noLetter := noBase letter (by rw [starts]; simp)
            exact ⟨true, by simp [noLetter]⟩
    · exact ⟨false, rfl⟩
  have off : afterBaseLetters 10 literal.body = literal.body := by
    unfold afterBaseLetters
    split
    · next letter rest starts => rw [noBase letter (by rw [starts]; simp), if_neg (by decide)]
    · rfl
  obtain ⟨mark, rest, tail, isMark⟩ := literal.exists_tail_eq
  have stops : ∀ c ∈ ".eE".toList,
      (c == '_') = false ∧ digitIn? LiteralBase.decimal.radix c = none := by decide
  have run : digitRun 10 false literal.body
      = some (literal.whole.map LiteralBase.decimal.digitValue, mark :: rest) := by
    rw [body, tail]
    refine digitRun_eq literal.wholeInBase ?_
    rintro c ⟨⟩
    exact stops mark isMark
  obtain ⟨onlyZero, settled⟩ := settled
  rw [wholeNumber?, settled]
  dsimp only
  rw [off, run]
  split <;> rfl

theorem isDigit_of_mem_digits : ∀ c ∈ LiteralBase.decimal.digits, c.isDigit = true := by decide

theorem readExponent_exponentText : readExponent literal.exponentText = some literal.exponentValue := by
  rw [exponentText, exponentValue]
  rcases literal.exponent with _ | exponent
  · rfl
  · have all : exponent.digits.all Char.isDigit = true :=
      List.all_eq_true.mpr fun c member => isDigit_of_mem_digits c (exponent.inBase c member)
    have noSign : ∀ c ∈ exponent.digits.head?, c ≠ '+' ∧ c ≠ '-' := by
      have digits : ∀ c ∈ LiteralBase.decimal.digits, c ≠ '+' ∧ c ≠ '-' := by decide
      exact fun c head => digits c (exponent.inBase c (List.mem_of_mem_head? head))
    have letter :
        (exponentLetter exponent.capital == 'e' || exponentLetter exponent.capital == 'E') = true := by
      cases exponent.capital <;> rfl
    simp only [Option.map_some, Option.getD_some, LiteralExponent.text, LiteralExponent.value, readExponent,
      takeSign_eq exponent.sign noSign, letter, all, List.isEmpty_eq_false_iff.mpr exponent.nonempty,
      Bool.not_false, Bool.and_self, if_true]
    cases exponent.sign <;> rfl

theorem takeFraction_tail : takeFraction literal.tail = (literal.fractionDigits, literal.exponentText) := by
  have marks : ∀ c ∈ ['e', 'E'], c.isDigit = false ∧ c ≠ '.' := by decide
  have starts : ∀ c ∈ literal.exponentText.head?, c ∈ ['e', 'E'] := by
    rw [exponentText]
    rcases literal.exponent with _ | exponent
    · simp
    · rintro c ⟨⟩
      cases exponent.capital <;> decide
  rw [tail, fractionDigits]
  rcases fraction : literal.fraction with _ | digits
  · rw [pointText, List.nil_append]
    unfold takeFraction
    split
    · next begins =>
        rw [begins] at starts
        exact absurd rfl (marks '.' (starts '.' rfl)).2
    · rfl
  · obtain ⟨taken, dropped⟩ := takeWhile_append_of_fails
      (fun c member => isDigit_of_mem_digits c (literal.fractionInBase digits fraction c member))
      fun c head => (marks c (starts c head)).1
    simp [pointText, takeFraction, taken, dropped]

theorem readUnsigned_body :
    readUnsigned literal.body = some ⟨digitsValue (literal.whole ++ literal.fractionDigits),
      literal.exponentValue - literal.fractionDigits.length⟩ := by
  obtain ⟨mark, rest, tail, isMark⟩ := literal.exists_tail_eq
  have marks : ∀ c ∈ ".eE".toList, c.isDigit = false := by decide
  have stops : ∀ c ∈ literal.tail.head?, c.isDigit = false := by
    rw [tail]
    rintro c ⟨⟩
    exact marks mark isMark
  obtain ⟨taken, dropped⟩ := takeWhile_append_of_fails
    (fun c member => isDigit_of_mem_digits c (literal.wholeInBase c member)) stops
  have some : (literal.whole.isEmpty && literal.fractionDigits.isEmpty) = false := by
    rcases literal.hasDigits with nonempty | ⟨digits, has, nonempty⟩
    · simp [nonempty]
    · simp [fractionDigits, Option.mem_def.mp has, nonempty]
  rw [readUnsigned, body, taken, dropped, literal.takeFraction_tail]
  simp [some, literal.readExponent_exponentText]

/-- Digits on both sides of a point are those of a whole number, with the power of ten lowered by the digits
behind the point. -/
theorem value_pointed (whole fraction : List Char) (exponent : Int) :
    Decimal.value ⟨digitsValue (whole ++ fraction), exponent - fraction.length⟩
      = (digitsValue whole + digitsValue fraction / 10 ^ fraction.length) * 10 ^ exponent := by
  have ten : (10 : ℚ) ≠ 0 := by norm_num
  rw [Decimal.value, digitsValue_append, zpow_sub₀ ten, zpow_natCast]
  push_cast
  field_simp

/-- A floating literal stands in a module for its value. -/
theorem exactValue?_text : exactValue? literal.text = some literal.value := by
  have noSign := literal.noSign_of_body []
  rw [List.append_nil] at noSign
  have noUnderscore : '_' ∉ literal.body := fun member =>
    (plain_bodyLetters '_' (literal.mem_bodyLetters_of_mem_body member)).2 rfl
  have notDigits : literal.body.all Char.isDigit = false := by
    obtain ⟨mark, rest, tail, isMark⟩ := literal.exists_tail_eq
    have marks : ∀ c ∈ ".eE".toList, c.isDigit = false := by decide
    rw [List.all_eq_false]
    refine ⟨mark, ?_, by simp [marks mark isMark]⟩
    rw [body, tail]
    simp
  rw [exactValue?, text, takeSign_eq literal.sign noSign]
  simp only [literal.wholeNumber?_body, joinDigits_eq_self noUnderscore, Option.bind_some, notDigits,
    Bool.false_eq_true, if_false, literal.readUnsigned_body, Option.map_some, value_pointed]
  rw [value]
  cases literal.sign <;> simp [LiteralSign.apply]

end FloatingLiteral

/-! ### Numeric literals of C -/

/-- A numeric literal of C with a sign, without its suffix. -/
inductive NumericLiteral where
  | whole (literal : IntegerLiteral)
  | floating (literal : FloatingLiteral)

namespace NumericLiteral

/-- A literal as C writes it. -/
def text : NumericLiteral → List Char
  | whole literal => literal.text
  | floating literal => literal.text

/-- A literal as a module writes it. -/
def moduleText : NumericLiteral → List Char
  | whole literal => literal.moduleText
  | floating literal => literal.text

/-- The value of a literal. -/
def value : NumericLiteral → ℚ
  | whole literal => literal.value
  | floating literal => literal.value

/-- The value of a literal that is a whole number. -/
def integer? : NumericLiteral → Option Int
  | whole literal => some literal.value
  | floating _ => none

/-- Whether the reader of numbers takes a literal if it is a whole number. -/
def Readable : NumericLiteral → Prop
  | whole literal => literal.Readable
  | floating _ => True

/-- A text is a suffix of a literal: any run of suffix letters of an integer, and at most one letter of a
floating literal. -/
def HasSuffix : NumericLiteral → List Char → Prop
  | whole _, suffix => IsSuffix suffix
  | floating _, suffix => IsFloatingSuffix suffix

/-- A text is a literal with its suffix. -/
def Spells (literal : NumericLiteral) (core : List Char) : Prop :=
  ∃ suffix, literal.HasSuffix suffix ∧ core = literal.text ++ suffix

variable {literal : NumericLiteral} {core shown : List Char}

theorem signed?_of_spells (spells : literal.Spells core) : signed? core = some literal.moduleText := by
  obtain ⟨suffix, isSuffix, rfl⟩ := spells
  cases literal with
  | whole literal => exact literal.signed?_eq isSuffix
  | floating literal => exact literal.signed?_eq isSuffix

/-- A literal stands in a module for its value. -/
theorem exactValue?_moduleText (literal : NumericLiteral) :
    exactValue? literal.moduleText = some literal.value := by
  cases literal with
  | floating literal => exact literal.exactValue?_text
  | whole literal =>
      have noSign := noSign_of_bodyLetters (literal.head_body [] (Or.inr rfl))
      rw [List.append_nil] at noSign
      rw [moduleText, IntegerLiteral.moduleText, List.append_assoc, exactValue?,
        takeSign_eq literal.sign noSign]
      simp only [wholeNumber?_moduleMark, Option.map_some, value, IntegerLiteral.value]
      cases literal.sign <;> simp [LiteralSign.apply]

theorem exists_spells_of_integerForm {base : LiteralBase} {digits suffix body : List Char}
    (form : IntegerForm base digits suffix body) (ascii : ∀ c ∈ body, c.toNat < 128)
    (sign : LiteralSign) :
    ∃ literal : NumericLiteral, literal.Spells (sign.text ++ body) := by
  have inBase : ∀ c ∈ digits, c ∈ base.digits := fun c member =>
    LiteralBase.mem_digits_of_shows (ascii c (by rw [form.parts]; simp [member])) (form.shown c member)
  refine ⟨.whole ⟨sign, base, digits, form.nonempty, inBase, form.noLeadingZero⟩,
    suffix, form.isSuffix, ?_⟩
  simp [text, IntegerLiteral.text, form.parts]

theorem exists_exponent (capital : Bool) (sign : LiteralSign) {digits : List Char} (nonempty : digits ≠ [])
    (shown : ∀ c ∈ digits, isDecimal c = true) (ascii : ∀ c ∈ digits, c.toNat < 128) :
    ∃ exponent : LiteralExponent,
      exponent.text = exponentLetter capital :: (sign.text ++ digits) :=
  ⟨⟨capital, sign, digits, nonempty,
    fun c member => mem_digits_of_isDecimal (ascii c member) (shown c member)⟩, rfl⟩

theorem exists_spells_of_floating? {body : List Char} (found : floating? body = some shown)
    (ascii : ∀ c ∈ body, c.toNat < 128) (sign : LiteralSign) :
    ∃ literal : NumericLiteral, literal.Spells (sign.text ++ body) := by
  obtain ⟨mantissa, rest, exponent, suffix, digits, isSuffix, parts⟩ := exists_parts_of_floating? found
  obtain ⟨whole, fraction, form, ends, rfl, rfl⟩ := mantissa?_eq_some_iff.mp digits
  have wholeInBase : ∀ c ∈ whole, c ∈ LiteralBase.decimal.digits := fun c member =>
    mem_digits_of_isDecimal (ascii c (by simp [member])) (form.wholeShown c member)
  have fractionInBase : ∀ digits ∈ fraction, ∀ c ∈ digits, c ∈ LiteralBase.decimal.digits := by
    rintro digits ⟨⟩ c member
    exact mem_digits_of_isDecimal (ascii c (by simp [pointText, member])) (form.fractionShown _ rfl c member)
  rcases parts with isExponent | ⟨-, rfl⟩
  · obtain ⟨capital, expSign, shown, nonempty, passes, -, rfl, rfl⟩ :=
      exponent?_eq_some_iff.mp isExponent
    obtain ⟨exponent, same⟩ := exists_exponent capital expSign nonempty passes
      fun c member => ascii c (by simp [member])
    refine ⟨.floating ⟨sign, whole, fraction, some exponent, wholeInBase, fractionInBase, form.hasDigits,
      Or.inr (by simp)⟩, suffix, isSuffix, ?_⟩
    simp [text, FloatingLiteral.text, FloatingLiteral.body, FloatingLiteral.tail,
      FloatingLiteral.exponentText, same]
  · -- Without an exponent the digits have a point, since no suffix begins with the letter of an exponent.
    have pointed : fraction ≠ none := by
      rintro rfl
      have apart : ∀ letter ∈ "fFlL".toList, letter ∉ ['e', 'E'] := by decide
      obtain ⟨letter, head, isLetter⟩ := ends
      rcases isSuffix with rfl | ⟨other, isOther, rfl⟩
      · cases head
      · cases head
        exact apart letter isOther isLetter
    refine ⟨.floating ⟨sign, whole, fraction, none, wholeInBase, fractionInBase, form.hasDigits,
      Or.inl pointed⟩, rest, isSuffix, ?_⟩
    simp [text, FloatingLiteral.text, FloatingLiteral.body, FloatingLiteral.tail,
      FloatingLiteral.exponentText]

/-- What is recognised as a literal in ASCII is one. -/
theorem exists_spells_of_signed? (found : signed? core = some shown)
    (ascii : ∀ c ∈ core, c.toNat < 128) :
    ∃ literal : NumericLiteral, literal.Spells core := by
  obtain ⟨sign, body, cut, rfl⟩ := exists_splitSign core
  rw [signed?, cut] at found
  obtain ⟨number, recognised, -⟩ := Option.map_eq_some_iff.mp found
  have asciiBody : ∀ c ∈ body, c.toNat < 128 := fun c member => ascii c (List.mem_append_right _ member)
  rcases integerForm_or_floating recognised with ⟨base, digits, suffix, form⟩ | floating
  · exact exists_spells_of_integerForm form asciiBody sign
  · exact exists_spells_of_floating? floating asciiBody sign

/-- Neither comments nor apostrophes are in a text in which blanks and parentheses stand around a floating
literal. -/
theorem not_mem_of_wraps {number : FloatingLiteral} {suffix text : List Char}
    (isSuffix : IsFloatingSuffix suffix) (wraps : Wraps (number.text ++ suffix) text) : '/' ∉ text ∧
      '\'' ∉ text := by
  have plain : ∀ c ∈ ['/', '\''], isWord c = false ∧ c ∉ ".+-".toList ∧ c ≠ '(' ∧ c ≠ ')' ∧
      isBlank c = false := by decide
  have absent : ∀ c ∈ ['/', '\''], c ∉ text := by
    intro c isMark member
    obtain ⟨noWord, noMark, noOpening, noClosing, solid⟩ := plain c isMark
    rcases wraps.characters c member with inCore | rfl | rfl | blank
    · rcases isLiteralChar_of_signed? (number.signed?_eq isSuffix) c inCore with word | mark
      · exact absurd (word.symm.trans noWord) (by decide)
      · exact noMark mark
    · exact noOpening rfl
    · exact noClosing rfl
    · exact absurd (blank.symm.trans solid) (by decide)
  exact ⟨absent '/' (by decide), absent '\'' (by decide)⟩

/-- A floating literal has no whole number for its value. -/
theorem integerValue_of_floating {number : FloatingLiteral} {suffix : List Char} {text : String}
    (isSuffix : IsFloatingSuffix suffix) (wraps : Wraps (number.text ++ suffix) text.toList) :
    integerValue text = .ok none := by
  obtain ⟨noComment, noApostrophe⟩ := not_mem_of_wraps isSuffix wraps
  have recognised : literalChars? (strip text.toList) = some number.text := by
    have signed := number.signed?_eq isSuffix
    rw [literalChars?, beforeComment_eq_self fun member => noComment (mem_of_mem_strip member), strip_strip,
      wraps.unwrapped_eq (unbroken_of_signed? signed).bare, signed]
  rw [integerValue_of_noApostrophe noApostrophe, literalInteger?, recognised]
  simp [number.isFloating_text]

end NumericLiteral
end Spelling

open Number Spelling Text

/-- A text without comments that stands, up to blanks and parentheses around it, for a bare one is taken
for a literal just if the bare text is a literal of C. What a module writes for it is a number of the
same value, and an integer literal that is not too long is read with that value; a floating literal is
not read as an integer. -/
theorem numericLiteral_keeps_value {text : String} {core : List Char}
    (ascii : ∀ c ∈ text.toList, c.toNat < 128) (noLine : ¬ ['/', '/'] <:+: text.toList)
    (noBlock : ¬ ['/', '*'] <:+: text.toList)
    (wraps : Wraps core text.toList) (bare : Bare core) :
    ((literal? text).isSome = true ↔ ∃ literal : NumericLiteral, literal.Spells core) ∧
    ∀ literal : NumericLiteral, literal.Spells core →
      literal? text = some (String.ofList literal.moduleText) ∧
      Number.exactValue? literal.moduleText = some literal.value ∧
      (literal.Readable → integerValue text = .ok literal.integer?) := by
  have recognised : literalChars? text.toList = signed? core := by
    rw [literalChars?, beforeComment_eq_self_of_unmarked noLine noBlock, wraps.unwrapped_eq bare]
  have coreAscii : ∀ c ∈ core, c.toNat < 128 := by
    obtain ⟨front, back, parts, -⟩ := wraps.exists_around
    exact fun c member => ascii c (by rw [parts]; simp [member])
  refine ⟨⟨fun found => ?_, ?_⟩, fun literal spells => ⟨?_, ?_, ?_⟩⟩
  · rw [literal?, recognised, Option.isSome_map, Option.isSome_iff_exists] at found
    obtain ⟨shown, found⟩ := found
    exact NumericLiteral.exists_spells_of_signed? found coreAscii
  · rintro ⟨literal, spells⟩
    rw [literal?, recognised, NumericLiteral.signed?_of_spells spells]
    rfl
  · rw [literal?, recognised, NumericLiteral.signed?_of_spells spells]
    rfl
  · exact literal.exactValue?_moduleText
  · obtain ⟨suffix, isSuffix, rfl⟩ := spells
    cases literal with
    | whole number => exact integerValue_of_spells (IntegerLiteral.spells_of_wraps isSuffix wraps)
    | floating number => exact fun _ => NumericLiteral.integerValue_of_floating isSuffix wraps

/-- A floating literal with all its parts: `-1.50e+2`. -/
def fullFloatingLiteral : FloatingLiteral where
  sign := .minus
  whole := ['1']
  fraction := some ['5', '0']
  exponent := some ⟨false, .plus, ['2'], by decide, by decide⟩
  wholeInBase := by decide
  fractionInBase := by
    rintro digits ⟨⟩
    decide
  hasDigits := Or.inl (by decide)
  marked := Or.inl (by decide)

theorem value_fullFloatingLiteral : fullFloatingLiteral.value = -150 := by
  have parts : digitsValue fullFloatingLiteral.whole = 1 ∧
      digitsValue fullFloatingLiteral.fractionDigits = 50 ∧
      fullFloatingLiteral.fractionDigits.length = 2 ∧ fullFloatingLiteral.exponentValue = 2 ∧
      fullFloatingLiteral.sign.apply 1 = -1 := by decide
  obtain ⟨whole, fraction, length, exponent, sign⟩ := parts
  rw [FloatingLiteral.value, whole, fraction, length, exponent, sign]
  norm_num

theorem numericLiteral_keeps_value_floating :
    (∀ c ∈ "( -1.50e+2F )".toList, c.toNat < 128) ∧ ¬ ['/', '/'] <:+: "( -1.50e+2F )".toList ∧
    ¬ ['/', '*'] <:+: "( -1.50e+2F )".toList ∧ Wraps "-1.50e+2F".toList "( -1.50e+2F )".toList ∧
    Bare "-1.50e+2F".toList ∧ (literal? "( -1.50e+2F )").isSome = true ∧
    literal? "( -1.50e+2F )" = some "-1.50e+2" ∧ Number.exactValue? "-1.50e+2".toList = some (-150) ∧
    integerValue "( -1.50e+2F )" = .ok none := by
  have ascii : ∀ c ∈ "( -1.50e+2F )".toList, c.toNat < 128 := by decide
  have noSlash : '/' ∉ "( -1.50e+2F )".toList := by decide
  have noLine : ¬ ['/', '/'] <:+: "( -1.50e+2F )".toList :=
    fun marked => noSlash (marked.subset (by decide))
  have noBlock : ¬ ['/', '*'] <:+: "( -1.50e+2F )".toList :=
    fun marked => noSlash (marked.subset (by decide))
  have parts : "( -1.50e+2F )".toList = '(' :: ((' ' :: ("-1.50e+2F".toList ++ [' '])) ++ [')']) := by decide
  have wraps : Wraps "-1.50e+2F".toList "( -1.50e+2F )".toList := by
    rw [parts]
    exact .parenthesised (.blankBefore (by decide) (.blankAfter (by decide) .bare))
  have bare : Bare "-1.50e+2F".toList :=
    Unbroken.bare (by decide : ∀ c ∈ "-1.50e+2F".toList, isBlank c = false ∧ c ≠ '(' ∧ c ≠ ')')
  have spells : (NumericLiteral.floating fullFloatingLiteral).Spells "-1.50e+2F".toList :=
    ⟨['F'], Or.inr ⟨'F', by decide, rfl⟩, by decide⟩
  obtain ⟨recognised, keeps⟩ := numericLiteral_keeps_value ascii noLine noBlock wraps bare
  obtain ⟨written, exact, unread⟩ := keeps _ spells
  have shown : fullFloatingLiteral.text = "-1.50e+2".toList := by decide
  rw [NumericLiteral.moduleText, shown] at written exact
  refine ⟨ascii, noLine, noBlock, wraps, bare, recognised.mpr ⟨_, spells⟩,
    written, ?_, unread trivial⟩
  rw [exact, NumericLiteral.value, value_fullFloatingLiteral]

end HeaderBindings
