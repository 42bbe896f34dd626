/-
Module: HeaderBindings.Proofs.RespelledExpressions
Purpose: Constant expressions of C as the names, integer literals and marks that they consist of, and that
  respelling one writes each literal for a module and leaves all else in place.
Main exports: Spelling.Lexeme, Spelling.Lexeme.Separated, Spelling.respell_flatMap,
  Spelling.Lexeme.respell_dropSuffix?_text, Spelling.Lexeme.respell_markOctal?_suffixless
-/
import Mathlib.Data.List.Chain
import HeaderBindings.Proofs.NumberRules
import HeaderBindings.Proofs.NumericLiterals
import HeaderBindings.Proofs.PatternRoundTrip

namespace HeaderBindings

namespace Spelling

open Text IntegerLiteral

/-! ### Integer literals under the rules -/

namespace IntegerLiteral

/-- No letter of a base is among decimal digits and letters of suffixes. -/
theorem not_mem_baseLetters :
    ∀ c ∈ LiteralBase.decimal.digits ++ suffixLetters, c ∉ baseLetters := by decide

/-- A run of decimal digits before a suffix is the number there. -/
theorem integerRun?_of_decimal {digits suffix : List Char} (nonempty : digits ≠ [])
    (inBase : ∀ c ∈ digits, c ∈ LiteralBase.decimal.digits) (isSuffix : IsSuffix suffix) :
    integerRun? (digits ++ suffix) = some (digits, suffix) := by
  rw [integerRun?_eq_run?]
  · exact run?_eq nonempty (fun c member => LiteralBase.decimal.shows_of_mem_digits (inBase c member))
      (by decide) isSuffix
  · intro letter rest starts
    have member : letter ∈ digits ++ suffix := by rw [starts]; simp
    apply not_mem_baseLetters
    rcases List.mem_append.mp member with digit | inSuffix
    · exact List.mem_append_left _ (inBase letter digit)
    · exact List.mem_append_right _ (isSuffix letter inSuffix)

/-- The mark and the digits of a literal before its suffix are the number there, in each of the bases. -/
theorem integerRun?_eq (literal : IntegerLiteral) {suffix : List Char} (isSuffix : IsSuffix suffix) :
    integerRun? (literal.base.mark ++ literal.digits ++ suffix)
      = some (literal.base.mark ++ literal.digits, suffix) := by
  obtain ⟨sign, base, digits, nonempty, inBase, noLeadingZero⟩ := literal
  have some : 0 < digits.length := List.length_pos_iff.mpr nonempty
  have stops {test : Char → Bool} (fails : ∀ c ∈ suffixLetters, test c = false) :
      ∀ c ∈ suffix.head?, test c = false :=
    fun c head => fails c (isSuffix c (List.mem_of_mem_head? head))
  cases base with
  | decimal => exact integerRun?_of_decimal nonempty inBase isSuffix
  | octal =>
      have decimal : ∀ c ∈ '0' :: LiteralBase.octal.digits, c ∈ LiteralBase.decimal.digits := by decide
      apply integerRun?_of_decimal (by simp [LiteralBase.mark]) _ isSuffix
      intro c member
      rcases List.mem_cons.mp member with rfl | digit
      · exact decimal '0' List.mem_cons_self
      · exact decimal c (List.mem_cons_of_mem _ (inBase c digit))
  | hexadecimal capital =>
      have shown : ∀ c ∈ digits, isHexadecimal c = true := fun c member =>
        (LiteralBase.hexadecimal capital).shows_of_mem_digits (inBase c member)
      obtain ⟨taken, dropped⟩ := takeWhile_append_of_fails shown (stops (by decide))
      cases capital <;> simp [LiteralBase.mark, integerRun?, taken, dropped, some]
  | binary capital =>
      have shown : ∀ c ∈ digits, isBinary c = true := fun c member =>
        (LiteralBase.binary capital).shows_of_mem_digits (inBase c member)
      obtain ⟨taken, dropped⟩ := takeWhile_append_of_fails shown (stops (by decide))
      cases capital <;> simp [LiteralBase.mark, integerRun?, taken, dropped, some]

theorem dropSuffix?_of_suffix (literal : IntegerLiteral) {suffix : List Char} (isSuffix : IsSuffix suffix)
    (nonempty : suffix ≠ []) :
    dropSuffix? (literal.base.mark ++ literal.digits ++ suffix)
      = some (literal.base.mark ++ literal.digits,
          (literal.base.mark ++ literal.digits).length + suffix.length - 1) := by
  have passes : ∀ c ∈ suffixLetters, isIntegerSuffix c = true := by decide
  have letters : run? isIntegerSuffix suffix = some (suffix, []) := run?_eq_some_iff.mpr
    ⟨(List.append_nil suffix).symm, nonempty, fun c member => passes c (isSuffix c member), by simp⟩
  rw [dropSuffix?, literal.integerRun?_eq isSuffix]
  simp only [Option.bind_eq_bind, Option.bind_some, letters]
  rfl

theorem dropSuffix?_of_bare (literal : IntegerLiteral) :
    dropSuffix? (literal.base.mark ++ literal.digits) = none := by
  have bare := literal.integerRun?_eq isSuffix_nil
  rw [List.append_nil] at bare
  rw [dropSuffix?, bare]
  rfl

/-- The mark of an octal literal in a module is no start of a number with a suffix, nor of an octal one. -/
theorem rules_of_octal (digits : List Char) :
    dropSuffix? ('0' :: 'o' :: digits) = none ∧ markOctal? ('0' :: 'o' :: digits) = none := by
  have noDigit : isDecimal 'o' = false ∧ isOctal 'o' = false ∧ isDecimal '0' = true := by decide
  have plain : ∀ letter rest, '0' :: 'o' :: digits = '0' :: letter :: rest → letter ∉ baseLetters := by
    rintro letter rest ⟨⟩
    decide
  constructor
  · rw [dropSuffix?, integerRun?_eq_run? plain]
    simp [run?, noDigit, isIntegerSuffix]
  · simp [markOctal?, run?, noDigit]

theorem markOctal?_of_octal {literal : IntegerLiteral} (octal : literal.base = .octal) :
    markOctal? (literal.base.mark ++ literal.digits)
      = some (literal.base.moduleMark ++ literal.digits, literal.digits.length) := by
  have run : run? isOctal literal.digits = some (literal.digits, []) := run?_eq_some_iff.mpr
    ⟨(List.append_nil _).symm, literal.nonempty,
      fun c member => LiteralBase.octal.shows_of_mem_digits
        (by rw [← octal]; exact literal.inBase c member),
      by simp⟩
  simp [octal, LiteralBase.mark, LiteralBase.moduleMark, markOctal?, run, wordEnds]

theorem markOctal?_of_other {literal : IntegerLiteral} (other : literal.base ≠ .octal) :
    markOctal? (literal.base.mark ++ literal.digits) = none := by
  obtain ⟨sign, base, digits, nonempty, inBase, noLeadingZero⟩ := literal
  cases base with
  | octal => exact absurd rfl other
  | decimal =>
      dsimp only [LiteralBase.mark, List.nil_append]
      unfold markOctal?
      split
      · next rest =>
          obtain rfl := noLeadingZero rfl rest rfl
          rfl
      · rfl
  | hexadecimal capital => cases capital <;> simp [LiteralBase.mark, markOctal?, run?, isOctal]
  | binary capital => cases capital <;> simp [LiteralBase.mark, markOctal?, run?, isOctal]

theorem moduleMark_of_other {base : LiteralBase} (other : base ≠ .octal) :
    base.moduleMark = base.mark := by
  cases base <;> first | rfl | exact absurd rfl other

end IntegerLiteral

/-! ### The parts of an expression -/

/-- A part of a constant expression: a name, an integer literal without sign with its suffix, or a mark,
which is an operator's character, a parenthesis, a blank or any other character that belongs to no word or
number. -/
inductive Lexeme where
  | name (letters : List Char) (identifier : Pattern.isIdentifier letters = true)
  | number (literal : IntegerLiteral) (noSign : literal.sign = .absent) (suffix : List Char)
      (isSuffix : IsSuffix suffix)
  | mark (c : Char) (apart : continuesWord c = false) (noSlash : c ≠ '/')

namespace Lexeme

/-- A part as C writes it. -/
def text : Lexeme → List Char
  | name letters _ => letters
  | number literal _ suffix _ => literal.text ++ suffix
  | mark c _ _ => [c]

/-- A part without the suffix of a literal. -/
def suffixless : Lexeme → List Char
  | name letters _ => letters
  | number literal _ _ _ => literal.text
  | mark c _ _ => [c]

/-- A part as a module writes it. -/
def moduleText : Lexeme → List Char
  | name letters _ => letters
  | number literal _ _ _ => literal.moduleText
  | mark c _ _ => [c]

/-- Whether a part is a mark. -/
def isMark : Lexeme → Bool
  | mark _ _ _ => true
  | _ => false

/-- Names and literals are separated by marks. -/
def Separated (lexemes : List Lexeme) : Prop :=
  lexemes.IsChain fun first second => first.isMark = true ∨ second.isMark = true

/-- Whether a part is a blank. -/
def isBlank : Lexeme → Bool
  | mark c _ _ => Text.isBlank c
  | _ => false

/-! ### The characters of names and literals -/

theorem isWord_of_identifier {letters : List Char} (identifier : Pattern.isIdentifier letters = true)
    {c : Char} (member : c ∈ letters) : isWord c = true :=
  Pattern.isWord_of_isNameChar (Pattern.isNameChar_of_mem_identifier identifier member)

/-- Marks, digits and suffixes of literals consist of characters of words. -/
theorem isWord_of_bodyLetters : ∀ c ∈ bodyLetters ++ suffixLetters, isWord c = true := by decide

theorem isWord_of_mem_text {literal : IntegerLiteral} (noSign : literal.sign = .absent) {c : Char}
    (member : c ∈ literal.text ∨ c ∈ literal.moduleText) : isWord c = true := by
  apply isWord_of_bodyLetters c (List.mem_append_left _ (literal.mem_bodyLetters _))
  rw [IntegerLiteral.text, IntegerLiteral.moduleText, noSign, LiteralSign.text, List.nil_append,
    List.nil_append, List.mem_append, List.mem_append] at member
  rcases member with (mark | digit) | (moduleMark | digit)
  · exact Or.inl mark
  · exact Or.inr (Or.inr digit)
  · exact Or.inr (Or.inl moduleMark)
  · exact Or.inr (Or.inr digit)

/-- Parts are written as words for names and literals, and as they are for marks. -/
structure Writes (write : Lexeme → List Char) : Prop where
  marks : ∀ c apart noSlash, write (mark c apart noSlash) = [c]
  nonempty : ∀ lexeme, write lexeme ≠ []
  words : ∀ lexeme, lexeme.isMark = false → ∀ c ∈ write lexeme, isWord c = true

theorem name_ne_nil {letters : List Char} (identifier : Pattern.isIdentifier letters = true) :
    letters ≠ [] := by
  rintro rfl
  cases identifier

/-- Names and marks as they are, and literals in characters of words. -/
theorem writes_of_numbers {write : Lexeme → List Char}
    (names : ∀ letters identifier, write (name letters identifier) = letters)
    (marks : ∀ c apart noSlash, write (mark c apart noSlash) = [c])
    (numbers : ∀ literal noSign suffix isSuffix, write (number literal noSign suffix isSuffix) ≠ [] ∧
      ∀ c ∈ write (number literal noSign suffix isSuffix), isWord c = true) : Writes write where
  marks := marks
  nonempty lexeme := by
    cases lexeme with
    | name letters identifier => rw [names]; exact name_ne_nil identifier
    | number literal noSign suffix isSuffix => exact (numbers literal noSign suffix isSuffix).1
    | mark c apart noSlash => rw [marks]; exact List.cons_ne_nil c []
  words lexeme notMark := by
    cases lexeme with
    | name letters identifier => rw [names]; exact fun c => isWord_of_identifier identifier
    | number literal noSign suffix isSuffix => exact (numbers literal noSign suffix isSuffix).2
    | mark c apart noSlash => cases notMark

theorem writes_suffixless : Writes suffixless :=
  writes_of_numbers (fun _ _ => rfl) (fun _ _ _ => rfl) fun literal noSign _ _ =>
    ⟨by simp [suffixless, IntegerLiteral.text, literal.nonempty],
      fun _ member => isWord_of_mem_text noSign (Or.inl member)⟩

theorem writes_text : Writes text := by
  refine writes_of_numbers (fun _ _ => rfl) (fun _ _ _ => rfl) fun literal noSign suffix isSuffix =>
    ⟨by simp [text, IntegerLiteral.text, literal.nonempty], fun c member => ?_⟩
  rcases List.mem_append.mp member with inText | inSuffix
  · exact isWord_of_mem_text noSign (Or.inl inText)
  · exact isWord_of_bodyLetters c (List.mem_append_right _ (isSuffix c inSuffix))

theorem writes_moduleText : Writes moduleText :=
  writes_of_numbers (fun _ _ => rfl) (fun _ _ _ => rfl) fun literal noSign _ _ =>
    ⟨by simp [moduleText, IntegerLiteral.moduleText, literal.nonempty],
      fun _ member => isWord_of_mem_text noSign (Or.inr member)⟩

theorem Writes.continues {write : Lexeme → List Char} (writes : Writes write) {lexeme : Lexeme}
    (notMark : lexeme.isMark = false) : ∀ c ∈ write lexeme, continuesWord c = true := fun c member => by
  rw [continuesWord, writes.words lexeme notMark c member, Bool.true_or]

/-! ### Names and literals under the rules -/

/-- No number is at the start of a name. -/
theorem rules_of_name {letters : List Char} (identifier : Pattern.isIdentifier letters = true) :
    dropSuffix? letters = none ∧ markOctal? letters = none := by
  obtain ⟨first, rest, rfl⟩ := List.exists_cons_of_ne_nil (name_ne_nil identifier)
  have starts := (Bool.and_eq_true_iff.mp identifier).1
  have notZero : first ≠ '0' := by
    rintro rfl
    exact absurd starts (by decide)
  have noDigit : isDecimal first = false := by
    have ascii := (Pattern.toNat_of_isNameChar (Pattern.isNameChar_of_isIdentifierStart starts)).2
    rw [← Bool.not_eq_true]
    intro digit
    have digits : ∀ c ∈ LiteralBase.decimal.digits, isIdentifierStart c = false := by decide
    exact absurd (starts.symm.trans (digits first (mem_digits_of_isDecimal (by omega) digit))) (by decide)
  constructor
  · rw [dropSuffix?, integerRun?_eq_run?]
    · simp [run?, noDigit]
    · rintro letter others ⟨⟩
      exact absurd rfl notZero
  · unfold markOctal?
    split
    · next starts => exact absurd (List.cons.inj starts).1 notZero
    · rfl

theorem respell_dropSuffix?_text {lexeme : Lexeme} (notMark : lexeme.isMark = false) :
    respell dropSuffix? lexeme.text = lexeme.suffixless := by
  cases lexeme with
  | mark c _ _ => cases notMark
  | name letters identifier =>
      exact respell_of_none (writes_text.continues notMark) (rules_of_name identifier).1
  | number literal noSign suffix isSuffix =>
      have shape : literal.text = literal.base.mark ++ literal.digits := by
        rw [IntegerLiteral.text, noSign, LiteralSign.text, List.nil_append]
      by_cases bare : suffix = []
      · subst bare
        have continues : ∀ c ∈ literal.text, continuesWord c = true :=
          writes_suffixless.continues notMark
        rw [text, suffixless, List.append_nil]
        exact respell_of_none continues (by rw [shape]; exact literal.dropSuffix?_of_bare)
      · have found := literal.dropSuffix?_of_suffix isSuffix bare
        have positive := List.length_pos_iff.mpr bare
        rw [text, suffixless, shape]
        refine respell_of_some found ?_
        rw [List.length_append]
        omega

theorem respell_markOctal?_suffixless {lexeme : Lexeme} (notMark : lexeme.isMark = false) :
    respell markOctal? lexeme.suffixless = lexeme.moduleText := by
  cases lexeme with
  | mark c _ _ => cases notMark
  | name letters identifier =>
      exact respell_of_none (writes_text.continues notMark) (rules_of_name identifier).2
  | number literal noSign suffix isSuffix =>
      have continues := writes_suffixless.continues notMark
      rw [suffixless, IntegerLiteral.text, noSign, LiteralSign.text, List.nil_append] at continues
      rw [suffixless, moduleText, IntegerLiteral.text, IntegerLiteral.moduleText, noSign, LiteralSign.text,
        List.nil_append, List.nil_append]
      by_cases octal : literal.base = .octal
      · refine respell_of_some (markOctal?_of_octal octal) ?_
        simp [octal, LiteralBase.mark]
      · rw [moduleMark_of_other octal]
        exact respell_of_none continues (markOctal?_of_other octal)

/-- What is written for a module stands under both rules. -/
theorem respell_moduleText {lexeme : Lexeme} (notMark : lexeme.isMark = false) :
    respell dropSuffix? lexeme.moduleText = lexeme.moduleText ∧
      respell markOctal? lexeme.moduleText = lexeme.moduleText := by
  have continues := writes_moduleText.continues notMark
  have stands : dropSuffix? lexeme.moduleText = none ∧ markOctal? lexeme.moduleText = none := by
    cases lexeme with
    | mark c _ _ => cases notMark
    | name letters identifier => exact rules_of_name identifier
    | number literal noSign suffix isSuffix =>
        rw [moduleText, IntegerLiteral.moduleText, noSign, LiteralSign.text, List.nil_append]
        by_cases octal : literal.base = .octal
        · rw [octal]
          exact rules_of_octal literal.digits
        · rw [moduleMark_of_other octal]
          exact ⟨literal.dropSuffix?_of_bare, markOctal?_of_other octal⟩
  exact ⟨respell_of_none continues stands.1, respell_of_none continues stands.2⟩

/-! ### Expressions -/

/-- A rule that respells each name and each literal respells an expression in which they are separated, and
leaves the marks in place. -/
theorem respell_flatMap {rule : NumberRule} {write rewrite : Lexeme → List Char} (ends : rule.EndsAtMarks)
    (writes : Writes write) (rewrites : Writes rewrite)
    (words : ∀ lexeme, lexeme.isMark = false → respell rule (write lexeme) = rewrite lexeme)
    {lexemes : List Lexeme} (separated : Separated lexemes) :
    respell rule (lexemes.flatMap write) = lexemes.flatMap rewrite := by
  induction lexemes with
  | nil => rfl
  | cons lexeme others ih =>
      have rest := ih separated.tail
      rw [List.flatMap_cons, List.flatMap_cons]
      cases isMark : lexeme.isMark with
      | true =>
          cases lexeme with
          | mark c apart noSlash =>
              rw [writes.marks, rewrites.marks, List.singleton_append, List.singleton_append,
                respell_cons_mark ends apart, rest]
          | _ => cases isMark
      | false =>
          cases others with
          | nil => simp [words lexeme isMark]
          | cons next more =>
              have nextMark : next.isMark = true :=
                (List.isChain_cons_cons.mp separated).1.resolve_left (by simp [isMark])
              cases next with
              | mark c apart noSlash =>
                  rw [List.flatMap_cons, List.flatMap_cons, writes.marks, rewrites.marks,
                    List.singleton_append, List.singleton_append, respell_cons_mark ends apart] at rest
                  rw [List.flatMap_cons, List.flatMap_cons, writes.marks, rewrites.marks,
                    List.singleton_append, List.singleton_append, respell_append ends apart,
                    words lexeme isMark, rest]
              | _ => cases nextMark

/-- No comment is in an expression. -/
theorem slash_not_mem {write : Lexeme → List Char} (writes : Writes write) (lexemes : List Lexeme) :
    '/' ∉ lexemes.flatMap write := by
  intro member
  obtain ⟨lexeme, -, inside⟩ := List.mem_flatMap.mp member
  cases isMark : lexeme.isMark with
  | false => exact absurd (writes.words lexeme isMark '/' inside) (by decide)
  | true =>
      cases lexeme with
      | mark c apart noSlash =>
          rw [writes.marks] at inside
          exact noSlash (List.mem_singleton.mp inside).symm
      | _ => cases isMark

theorem blank_of_isBlank {write : Lexeme → List Char} (writes : Writes write) {lexeme : Lexeme}
    (blank : lexeme.isBlank = true) : ∀ c ∈ write lexeme, Text.isBlank c = true := by
  cases lexeme with
  | mark c apart noSlash =>
      rw [writes.marks]
      intro other member
      rwa [List.mem_singleton.mp member]
  | _ => cases blank

theorem solid_of_not_isBlank {write : Lexeme → List Char} (writes : Writes write) {lexeme : Lexeme}
    (solid : lexeme.isBlank = false) : ∀ c ∈ write lexeme, Text.isBlank c = false := by
  cases isMark : lexeme.isMark with
  | false =>
      intro c member
      rw [← Bool.not_eq_true]
      exact fun blank =>
        absurd ((writes.words lexeme isMark c member).symm.trans (isWord_of_isBlank blank)) (by decide)
  | true =>
      cases lexeme with
      | mark c apart noSlash =>
          rw [writes.marks]
          intro other member
          rwa [List.mem_singleton.mp member]
      | _ => cases isMark

/-- An expression without its outer blanks is what some of its parts are written as, in each way of writing
them. -/
theorem exists_core {lexemes : List Lexeme} (separated : Separated lexemes) :
    ∃ core, Separated core ∧
      ∀ {write : Lexeme → List Char},
        Writes write → strip (lexemes.flatMap write) = core.flatMap write := by
  obtain ⟨before, core, after, rfl, blankBefore, blankAfter, first, last⟩ :=
    exists_trimmed isBlank lexemes
  refine ⟨core, separated.infix ⟨before, after, List.append_assoc before core after⟩,
    fun {write} writes => ?_⟩
  have blanks {lexemes : List Lexeme} (blank : ∀ lexeme ∈ lexemes, lexeme.isBlank = true) :
      ∀ c ∈ lexemes.flatMap write, Text.isBlank c = true := by
    intro c member
    obtain ⟨lexeme, inside, member⟩ := List.mem_flatMap.mp member
    exact blank_of_isBlank writes (blank lexeme inside) c member
  rw [List.flatMap_append, List.flatMap_append, strip_surrounded (blanks blankBefore) (blanks blankAfter)]
  apply strip_eq_self
  · intro c head
    cases core with
    | nil => cases head
    | cons lexeme others =>
        rw [List.flatMap_cons, List.head?_append_of_ne_nil _ (writes.nonempty lexeme)] at head
        exact solid_of_not_isBlank writes (first lexeme rfl) c (List.mem_of_mem_head? head)
  · intro c ends
    induction core using List.reverseRecOn with
    | nil => cases ends
    | append_singleton others lexeme =>
        rw [List.flatMap_append, List.flatMap_singleton,
          List.getLast?_append_of_ne_nil _ (writes.nonempty lexeme)] at ends
        exact solid_of_not_isBlank writes (last lexeme (by simp)) c (List.mem_of_mem_getLast? ends)

end Lexeme

/-- Both rules one after the other write the parts of an expression for a module, and leave what is
written so as it is. -/
theorem expressionChars_flatMap {lexemes : List Lexeme} (separated : Lexeme.Separated lexemes) :
    expressionChars (lexemes.flatMap Lexeme.text) = strip (lexemes.flatMap Lexeme.moduleText) ∧
    expressionChars (strip (lexemes.flatMap Lexeme.moduleText))
      = strip (lexemes.flatMap Lexeme.moduleText) := by
  obtain ⟨core, separatedCore, stripped⟩ := Lexeme.exists_core separated
  have noComment {write : Lexeme → List Char} (writes : Lexeme.Writes write) (lexemes : List Lexeme) :
      beforeComment (lexemes.flatMap write) = lexemes.flatMap write :=
    IntegerLiteral.beforeComment_eq_self (Lexeme.slash_not_mem writes lexemes)
  have solid : strip (core.flatMap Lexeme.moduleText) = core.flatMap Lexeme.moduleText := by
    rw [← stripped Lexeme.writes_moduleText, strip_strip]
  constructor
  · have dropped :=
      Lexeme.respell_flatMap endsAtMarks_dropSuffix? Lexeme.writes_text Lexeme.writes_suffixless
      (fun _ => Lexeme.respell_dropSuffix?_text) separatedCore
    have marked := Lexeme.respell_flatMap endsAtMarks_markOctal? Lexeme.writes_suffixless
      Lexeme.writes_moduleText (fun _ => Lexeme.respell_markOctal?_suffixless) separatedCore
    rw [expressionChars, noComment Lexeme.writes_text, stripped Lexeme.writes_text,
      stripped Lexeme.writes_moduleText]
    exact (congrArg (respell markOctal?) dropped).trans marked
  · have dropped := Lexeme.respell_flatMap endsAtMarks_dropSuffix? Lexeme.writes_moduleText
      Lexeme.writes_moduleText (fun _ notMark => (Lexeme.respell_moduleText notMark).1) separatedCore
    have marked := Lexeme.respell_flatMap endsAtMarks_markOctal? Lexeme.writes_moduleText
      Lexeme.writes_moduleText (fun _ notMark => (Lexeme.respell_moduleText notMark).2) separatedCore
    rw [stripped Lexeme.writes_moduleText, expressionChars, noComment Lexeme.writes_moduleText, solid]
    exact (congrArg (respell markOctal?) dropped).trans marked

end Spelling

open Spelling Text

/-- An expression whose names and literals are separated is written for a module with each literal in
its spelling there, which has the literal's value, and all else in place but its outer blanks; and what
is written so stays as it is. -/
theorem expression_respells_literals {lexemes : List Lexeme} (separated : Lexeme.Separated lexemes) :
    expression (String.ofList (lexemes.flatMap Lexeme.text))
      = String.ofList (strip (lexemes.flatMap Lexeme.moduleText)) ∧
    expression (String.ofList (strip (lexemes.flatMap Lexeme.moduleText)))
      = String.ofList (strip (lexemes.flatMap Lexeme.moduleText)) ∧
    ∀ literal noSign suffix isSuffix, Lexeme.number literal noSign suffix isSuffix ∈ lexemes →
      Number.exactValue? literal.moduleText = some (literal.value : ℚ) := by
  obtain ⟨respelled, stands⟩ := expressionChars_flatMap separated
  refine ⟨?_, ?_, fun literal _ _ _ _ => (NumericLiteral.whole literal).exactValue?_moduleText⟩
  · rw [expression, String.toList_ofList, respelled]
  · rw [expression, String.toList_ofList, stands]

/-- The octal literal fifteen. -/
def octalFifteen : IntegerLiteral where
  sign := .absent
  base := .octal
  digits := ['1', '7']
  nonempty := by decide
  inBase := by decide
  noLeadingZero := by rintro ⟨⟩

/-- The parts of the expression `(017UL << FLAG_2) `. -/
def shiftedFifteen : List Lexeme :=
  [.mark '(' (by decide) (by decide),
    .number octalFifteen rfl ['U', 'L'] (by decide : ∀ c ∈ ['U', 'L'], _),
   .mark ' ' (by decide) (by decide), .mark '<' (by decide) (by decide), .mark '<' (by decide) (by decide),
   .mark ' ' (by decide) (by decide), .name ['F', 'L', 'A', 'G', '_', '2'] (by decide),
   .mark ')' (by decide) (by decide), .mark ' ' (by decide) (by decide)]

theorem expression_respells_literals_shifted :
    Lexeme.Separated shiftedFifteen ∧ expression "(017UL << FLAG_2) " = "(0o17 << FLAG_2)" ∧
    expression "(0o17 << FLAG_2)" = "(0o17 << FLAG_2)" ∧ Number.exactValue? "0o17".toList = some 15 := by
  have separated : Lexeme.Separated shiftedFifteen := by
    unfold Lexeme.Separated
    decide
  obtain ⟨respelled, stands, keeps⟩ := expression_respells_literals separated
  have text : String.ofList (shiftedFifteen.flatMap Lexeme.text) = "(017UL << FLAG_2) " := by decide
  have moduleText :
      String.ofList (strip (shiftedFifteen.flatMap Lexeme.moduleText)) = "(0o17 << FLAG_2)" := by decide
  have value :=
    keeps octalFifteen rfl ['U', 'L'] (by decide : ∀ c ∈ ['U', 'L'], _) (by simp [shiftedFifteen])
  have isFifteen : octalFifteen.value = 15 := by decide
  rw [text, moduleText] at respelled
  rw [moduleText] at stands
  rw [isFifteen] at value
  exact ⟨separated, respelled, stands, value⟩

end HeaderBindings
