/-
Module: HeaderBindings.Proofs.IntegerLiterals
Purpose: Integer literals of C with their values: what a module writes for them, and that the reader of
  literals finds the value that C gives them.
Main exports: Spelling.IntegerLiteral, Spelling.IntegerLiteral.Spells, Spelling.literal?_of_spells,
  Spelling.integerValue_of_spells, Spelling.integerValue_moduleText, Number.readInteger_toString
-/
import Mathlib.Algebra.Group.Nat.Defs
import HeaderBindings.Proofs.WrappedTexts
import HeaderBindings.Spelling.IntegerValue

namespace HeaderBindings

namespace Text

/-- What is said of all characters of a text is decided on the text, and not on all characters that there
are. -/
scoped instance decidableOfText {claim : Char → Prop} [DecidablePred claim] (text : List Char) :
    Decidable (∀ c ∈ text, claim c) :=
  List.decidableBAll claim text

end Text

namespace Spelling

open Text Number

/-! ### Runs of digits -/

/-- A run is what a text begins with, as far as its characters pass a test. -/
theorem run?_eq_some_iff {test : Char → Bool} {text digits rest : List Char} :
    run? test text = some (digits, rest) ↔
      text = digits ++ rest ∧ digits ≠ [] ∧ (∀ c ∈ digits, test c = true) ∧
        ∀ c ∈ rest.head?, test c = false := by
  constructor
  · intro found
    unfold run? at found
    split at found
    · cases found
    · next nonempty =>
        obtain ⟨isRun, rfl⟩ := Prod.mk.inj (Option.some.inj found)
        refine ⟨by rw [← isRun, List.takeWhile_append_dropWhile], ?_, ?_, fun _ => head?_dropWhile⟩
        · exact fun isEmpty => nonempty (isRun.trans isEmpty)
        · rw [← isRun]
          exact fun _ => List.mem_takeWhile_imp
  · rintro ⟨rfl, nonempty, passes, fails⟩
    obtain ⟨taken, dropped⟩ := takeWhile_append_of_fails passes fails
    unfold run?
    rw [taken, dropped]
    cases digits with
    | nil => exact absurd rfl nonempty
    | cons first others => rfl

/-! ### Integer literals of C -/

/-- The bases of integer literals. A small or a capital letter names base sixteen or two. -/
inductive LiteralBase where
  | decimal
  | octal
  | hexadecimal (capital : Bool)
  | binary (capital : Bool)
deriving Repr, DecidableEq

namespace LiteralBase

/-- The base as a number. -/
def radix : LiteralBase → Nat
  | decimal => 10
  | octal => 8
  | hexadecimal _ => 16
  | binary _ => 2

/-- The digits of a base. -/
def digits : LiteralBase → List Char
  | decimal => "0123456789".toList
  | octal => "01234567".toList
  | hexadecimal _ => "0123456789abcdefABCDEF".toList
  | binary _ => "01".toList

/-- What C writes before the digits of a base. -/
def mark : LiteralBase → List Char
  | decimal => []
  | octal => ['0']
  | hexadecimal capital => ['0', if capital then 'X' else 'x']
  | binary capital => ['0', if capital then 'B' else 'b']

/-- What a module writes before the digits of a base. -/
def moduleMark : LiteralBase → List Char
  | octal => ['0', 'o']
  | base => base.mark

/-- The value of a digit of a base. -/
def digitValue (base : LiteralBase) (c : Char) : Nat :=
  (digitIn? base.radix c).getD 0

theorem digitIn?_eq_digitValue {base : LiteralBase} {c : Char} (member : c ∈ base.digits) :
    digitIn? base.radix c = some (base.digitValue c) := by
  have read : ∀ c ∈ base.digits, (digitIn? base.radix c).isSome = true := by
    rcases base with _ | _ | (_ | _) | (_ | _) <;> decide
  obtain ⟨value, eq⟩ := Option.isSome_iff_exists.mp (read c member)
  rw [digitValue, eq, Option.getD_some]

end LiteralBase

/-- The sign of an integer literal. -/
inductive LiteralSign where
  | absent
  | plus
  | minus
deriving Repr, DecidableEq

namespace LiteralSign

/-- The text of a sign. -/
def text : LiteralSign → List Char
  | absent => []
  | plus => ['+']
  | minus => ['-']

/-- A number under a sign. -/
def apply : LiteralSign → Nat → Int
  | minus, n => -(n : Int)
  | _, n => n

theorem natAbs_apply (sign : LiteralSign) (n : Nat) : (sign.apply n).natAbs = n := by
  cases sign <;> simp [apply]

end LiteralSign

/-- An integer literal of C with a sign, without its suffix: digits of its base, and a decimal literal
begins with a zero only if it is one. -/
structure IntegerLiteral where
  sign : LiteralSign
  base : LiteralBase
  digits : List Char
  nonempty : digits ≠ []
  inBase : ∀ c ∈ digits, c ∈ base.digits
  noLeadingZero : base = .decimal → ∀ rest, digits = '0' :: rest → rest = []

namespace IntegerLiteral

/-- The number that the digits of a literal spell. -/
def magnitude (literal : IntegerLiteral) : Nat :=
  ofDigits literal.base.radix (literal.digits.map literal.base.digitValue)

/-- The value of a literal. -/
def value (literal : IntegerLiteral) : Int := literal.sign.apply literal.magnitude

/-- A literal as C writes it. -/
def text (literal : IntegerLiteral) : List Char :=
  literal.sign.text ++ literal.base.mark ++ literal.digits

/-- A literal as a module writes it. -/
def moduleText (literal : IntegerLiteral) : List Char :=
  literal.sign.text ++ literal.base.moduleMark ++ literal.digits

/-- The letters of suffixes. -/
def suffixLetters : List Char := "uUlL".toList

/-- A text consists of letters of suffixes, in any number. -/
def IsSuffix (text : List Char) : Prop := ∀ c ∈ text, c ∈ suffixLetters

theorem isSuffix_nil : IsSuffix [] := fun _ member => absurd member List.not_mem_nil

/-- A text spells a literal: the literal and a suffix, in any number of parentheses, with blanks anywhere
around it. -/
inductive Spells (literal : IntegerLiteral) : List Char → Prop where
  | suffixed {suffix : List Char} (isSuffix : IsSuffix suffix) :
      Spells literal (literal.text ++ suffix)
  | parenthesised {inner : List Char} (spells : Spells literal inner) :
      Spells literal ('(' :: (inner ++ [')']))
  | blankBefore {c : Char} {rest : List Char} (blank : isBlank c = true) (spells : Spells literal rest) :
      Spells literal (c :: rest)
  | blankAfter {c : Char} {rest : List Char} (blank : isBlank c = true) (spells : Spells literal rest) :
      Spells literal (rest ++ [c])

/-- Whether the reader of numbers takes a literal: a decimal one has a limit on its digits. -/
def Readable (literal : IntegerLiteral) : Prop :=
  literal.base = .decimal → literal.digits.length ≤ decimalLimit

instance (literal : IntegerLiteral) : Decidable literal.Readable :=
  inferInstanceAs (Decidable (literal.base = .decimal → literal.digits.length ≤ decimalLimit))

variable {literal : IntegerLiteral} {text : List Char}

/-! ### The characters of a literal -/

/-- The characters of marks and digits. -/
def bodyLetters : List Char := "0123456789abcdefABCDEFxXo".toList

/-- The characters that literals and their suffixes consist of. -/
def letters : List Char := bodyLetters ++ (suffixLetters ++ "+-".toList)

theorem mem_bodyLetters (literal : IntegerLiteral) {c : Char}
    (member : c ∈ literal.base.mark ∨ c ∈ literal.base.moduleMark ∨ c ∈ literal.digits) :
    c ∈ bodyLetters := by
  have contained : (∀ c ∈ literal.base.mark, c ∈ bodyLetters) ∧
      (∀ c ∈ literal.base.moduleMark, c ∈ bodyLetters) ∧
        ∀ c ∈ literal.base.digits, c ∈ bodyLetters := by
    rcases literal.base with _ | _ | (_ | _) | (_ | _) <;> decide
  rcases member with mark | moduleMark | digit
  · exact contained.1 c mark
  · exact contained.2.1 c moduleMark
  · exact contained.2.2 c (literal.inBase c digit)

theorem mem_letters_of_mem_sign {sign : LiteralSign} {c : Char} (member : c ∈ sign.text) :
    c ∈ letters := by
  have contained : ∀ c ∈ sign.text, c ∈ letters := by
    cases sign <;> decide
  exact contained c member

theorem mem_letters_of_mem_text {c : Char} (member : c ∈ literal.text) : c ∈ letters := by
  rw [IntegerLiteral.text, List.mem_append, List.mem_append] at member
  rcases member with (sign | mark) | digit
  · exact mem_letters_of_mem_sign sign
  · exact List.mem_append_left _ (literal.mem_bodyLetters (Or.inl mark))
  · exact List.mem_append_left _ (literal.mem_bodyLetters (Or.inr (Or.inr digit)))

theorem mem_letters_of_mem_moduleText {c : Char} (member : c ∈ literal.moduleText) : c ∈ letters := by
  rw [IntegerLiteral.moduleText, List.mem_append, List.mem_append] at member
  rcases member with (sign | mark) | digit
  · exact mem_letters_of_mem_sign sign
  · exact List.mem_append_left _ (literal.mem_bodyLetters (Or.inr (Or.inl mark)))
  · exact List.mem_append_left _ (literal.mem_bodyLetters (Or.inr (Or.inr digit)))

theorem plain_letters :
    ∀ c ∈ letters, isBlank c = false ∧ isNumberBlank c = false ∧ c.toNat < 128 := by decide

/-- Neither what opens a comment, a character constant or a parenthesis is a letter of literals. -/
theorem marks_not_mem_letters : '/' ∉ letters ∧ '\'' ∉ letters ∧ '(' ∉ letters := by decide

theorem mem_letters_of_mem_suffix {suffix : List Char} (isSuffix : IsSuffix suffix) {c : Char}
    (member : c ∈ suffix) : c ∈ letters :=
  List.mem_append_right _ (List.mem_append_left _ (isSuffix c member))

theorem mem_letters_of_mem_suffixed {suffix : List Char} (isSuffix : IsSuffix suffix) {c : Char}
    (member : c ∈ literal.text ++ suffix) : c ∈ letters := by
  rcases List.mem_append.mp member with inText | inSuffix
  · exact mem_letters_of_mem_text inText
  · exact mem_letters_of_mem_suffix isSuffix inSuffix

/-- Blanks and parentheses stand around a literal and its suffix in a text that spells it. -/
theorem Spells.exists_wraps (spells : literal.Spells text) :
    ∃ suffix, IsSuffix suffix ∧ Wraps (literal.text ++ suffix) text := by
  induction spells with
  | @suffixed suffix isSuffix => exact ⟨suffix, isSuffix, .bare⟩
  | parenthesised _ ih =>
      obtain ⟨suffix, isSuffix, wraps⟩ := ih
      exact ⟨suffix, isSuffix, .parenthesised wraps⟩
  | blankBefore blank _ ih =>
      obtain ⟨suffix, isSuffix, wraps⟩ := ih
      exact ⟨suffix, isSuffix, .blankBefore blank wraps⟩
  | blankAfter blank _ ih =>
      obtain ⟨suffix, isSuffix, wraps⟩ := ih
      exact ⟨suffix, isSuffix, .blankAfter blank wraps⟩

/-- A text spells the literal that blanks and parentheses stand around in it. -/
theorem spells_of_wraps {suffix : List Char} (isSuffix : IsSuffix suffix)
    (wraps : Wraps (literal.text ++ suffix) text) : literal.Spells text := by
  induction wraps with
  | bare => exact .suffixed isSuffix
  | parenthesised _ ih => exact .parenthesised ih
  | blankBefore blank _ ih => exact .blankBefore blank ih
  | blankAfter blank _ ih => exact .blankAfter blank ih

/-- A text that spells a literal consists of the characters of literals, parentheses and blanks. -/
theorem Spells.characters (spells : literal.Spells text) :
    ∀ c ∈ text, c ∈ letters ∨ c = '(' ∨ c = ')' ∨ isBlank c = true := by
  obtain ⟨suffix, isSuffix, wraps⟩ := spells.exists_wraps
  exact fun c member => (wraps.characters c member).imp_left (mem_letters_of_mem_suffixed isSuffix)

/-- Neither comments nor apostrophes are in a text that spells a literal. -/
theorem Spells.not_mem (spells : literal.Spells text) : '/' ∉ text ∧ '\'' ∉ text := by
  have slash : ¬ ('/' ∈ letters ∨ '/' = '(' ∨ '/' = ')' ∨ isBlank '/' = true) := by
    simpa using ⟨marks_not_mem_letters.1, by decide⟩
  have apostrophe : ¬ ('\'' ∈ letters ∨ '\'' = '(' ∨ '\'' = ')' ∨ isBlank '\'' = true) := by
    simpa using ⟨marks_not_mem_letters.2.1, by decide⟩
  exact ⟨fun member => slash (spells.characters _ member),
    fun member => apostrophe (spells.characters _ member)⟩

/-- Neither blanks nor parentheses are in a text of letters of literals. -/
theorem unbroken_of_letters {text : List Char} (known : ∀ c ∈ text, c ∈ letters) : Unbroken text := by
  have unbroken : ∀ c ∈ letters, isBlank c = false ∧ c ≠ '(' ∧ c ≠ ')' := by decide
  exact fun c member => unbroken c (known c member)

theorem Spells.unwrapped_eq (spells : literal.Spells text) :
    ∃ suffix : List Char, IsSuffix suffix ∧
      unwrapped (strip text) = literal.text ++ suffix := by
  obtain ⟨suffix, isSuffix, wraps⟩ := spells.exists_wraps
  have unbroken : Unbroken (literal.text ++ suffix) :=
    unbroken_of_letters fun _ => mem_letters_of_mem_suffixed isSuffix
  exact ⟨suffix, isSuffix, wraps.unwrapped_eq unbroken.bare⟩

/-! ### Recognition -/

theorem withIntegerSuffix_eq {number suffix : List Char} (isSuffix : IsSuffix suffix) :
    withIntegerSuffix number suffix = some number := by
  have passes : ∀ c ∈ suffixLetters, isIntegerSuffix c = true := by decide
  have all : suffix.all isIntegerSuffix = true :=
    List.all_eq_true.mpr fun c member => passes c (isSuffix c member)
  rw [withIntegerSuffix, if_pos all]

/-- Digits that pass a test are the run that a suffix ends. -/
theorem run?_eq {test : Char → Bool} {digits suffix : List Char} (nonempty : digits ≠ [])
    (passes : ∀ c ∈ digits, test c = true) (fails : ∀ c ∈ suffixLetters, test c = false)
    (isSuffix : IsSuffix suffix) :
    run? test (digits ++ suffix) = some (digits, suffix) :=
  run?_eq_some_iff.mpr
    ⟨rfl, nonempty, passes, fun c head => fails c (isSuffix c (List.mem_of_mem_head? head))⟩

/-- No digits are at the start of a suffix. -/
theorem run?_suffix {test : Char → Bool} {suffix : List Char}
    (fails : ∀ c ∈ suffixLetters, test c = false)
    (isSuffix : IsSuffix suffix) : run? test suffix = none := by
  cases suffix with
  | nil => rfl
  | cons c rest =>
      have stops := fails c (isSuffix c List.mem_cons_self)
      simp [run?, stops]

theorem unsigned?_decimal {digits suffix : List Char} (nonempty : digits ≠ [])
    (inBase : ∀ c ∈ digits, c ∈ LiteralBase.decimal.digits)
    (noLeadingZero : ∀ rest, digits = '0' :: rest → rest = [])
    (isSuffix : IsSuffix suffix) :
    unsigned? (digits ++ suffix) = some digits := by
  cases digits with
  | nil => exact absurd rfl nonempty
  | cons first rest =>
      by_cases zero : first = '0'
      · subst zero
        obtain rfl := noLeadingZero rest rfl
        have notOctal : octal? ('0' :: suffix) = none := by
          simp [octal?, run?_suffix (by decide : ∀ c ∈ suffixLetters, isOctal c = false) isSuffix]
        simp [unsigned?, notOctal, decimal?, withIntegerSuffix_eq isSuffix]
      · have digit : ∀ c ∈ LiteralBase.decimal.digits,
            c.isDigit = true ∧ isDecimal c = true := by decide
        have fails : ∀ c ∈ suffixLetters, isDecimal c = false := by decide
        have passesRest : ∀ c ∈ rest, isDecimal c = true := fun c member =>
          (digit c (inBase c (List.mem_cons_of_mem _ member))).2
        obtain ⟨taken, dropped⟩ :=
          takeWhile_append_of_fails passesRest fun c head =>
            fails c (isSuffix c (List.mem_of_mem_head? head))
        have notOctal : octal? (first :: (rest ++ suffix)) = none := by
          unfold octal?
          split
          · next starts => exact absurd (List.cons.inj starts).1 zero
          · rfl
        have isDecimalText : decimal? (first :: (rest ++ suffix)) = some (first :: rest) := by
          unfold decimal?
          split
          · next starts => exact absurd (List.cons.inj starts).1 zero
          · next starts =>
              obtain ⟨rfl, rfl⟩ := List.cons.inj starts
              rw [if_pos (digit _ (inBase _ List.mem_cons_self)).1, taken, dropped,
                withIntegerSuffix_eq isSuffix]
          · next ends => cases ends
        simp [unsigned?, notOctal, isDecimalText]

theorem unsigned?_octal {digits suffix : List Char} (nonempty : digits ≠ [])
    (inBase : ∀ c ∈ digits, c ∈ LiteralBase.octal.digits)
    (isSuffix : IsSuffix suffix) :
    unsigned? ('0' :: (digits ++ suffix)) = some ('0' :: 'o' :: digits) := by
  have passes : ∀ c ∈ LiteralBase.octal.digits, isOctal c = true := by decide
  have run := run?_eq nonempty (fun c member => passes c (inBase c member))
    (by decide : ∀ c ∈ suffixLetters, isOctal c = false) isSuffix
  simp [unsigned?, octal?, run, withIntegerSuffix_eq isSuffix]

/-- After a zero, a letter other than of a suffix makes a text neither an octal nor a decimal literal. -/
theorem not_octal_of_letter {letter : Char} (rest : List Char) (notOctal : isOctal letter = false)
    (notSuffix : isIntegerSuffix letter = false) :
    octal? ('0' :: letter :: rest) = none ∧ decimal? ('0' :: letter :: rest) = none := by
  constructor
  · simp [octal?, run?, notOctal]
  · simp [decimal?, withIntegerSuffix, notSuffix]

theorem unsigned?_hexadecimal {letter : Char} {digits suffix : List Char} (isX : letter ∈ ['x', 'X'])
    (nonempty : digits ≠ []) (inBase : ∀ c ∈ digits, c ∈ "0123456789abcdefABCDEF".toList)
    (isSuffix : IsSuffix suffix) :
    unsigned? ('0' :: letter :: (digits ++ suffix)) = some ('0' :: letter :: digits) := by
  have passes : ∀ c ∈ "0123456789abcdefABCDEF".toList, isHexadecimal c = true := by decide
  have run := run?_eq nonempty (fun c member => passes c (inBase c member))
    (by decide : ∀ c ∈ suffixLetters, isHexadecimal c = false) isSuffix
  have other : ∀ letter ∈ ['x', 'X'],
      isOctal letter = false ∧ isIntegerSuffix letter = false := by decide
  obtain ⟨notOctal, notDecimal⟩ := not_octal_of_letter (digits ++ suffix) (other letter isX).1
    (other letter isX).2
  have named : letter = 'x' ∨ letter = 'X' := by simpa using isX
  simp [unsigned?, notOctal, notDecimal, hexadecimal?, named, run, withIntegerSuffix_eq isSuffix]

theorem unsigned?_binary {letter : Char} {digits suffix : List Char} (isB : letter ∈ ['b', 'B'])
    (nonempty : digits ≠ []) (inBase : ∀ c ∈ digits, c ∈ "01".toList)
    (isSuffix : IsSuffix suffix) :
    unsigned? ('0' :: letter :: (digits ++ suffix)) = some ('0' :: letter :: digits) := by
  have passes : ∀ c ∈ "01".toList, isBinary c = true := by decide
  have run := run?_eq nonempty (fun c member => passes c (inBase c member))
    (by decide : ∀ c ∈ suffixLetters, isBinary c = false) isSuffix
  have other : ∀ letter ∈ ['b', 'B'], isOctal letter = false ∧ isIntegerSuffix letter = false ∧
      ¬ (letter = 'x' ∨ letter = 'X') := by decide
  obtain ⟨notOctal, notDecimal⟩ := not_octal_of_letter (digits ++ suffix) (other letter isB).1
    (other letter isB).2.1
  have named : letter = 'b' ∨ letter = 'B' := by simpa using isB
  simp [unsigned?, notOctal, notDecimal, hexadecimal?, (other letter isB).2.2, binary?, named, run,
    withIntegerSuffix_eq isSuffix]

/-- What follows the sign of a literal is recognised, in each of the bases. -/
theorem unsigned?_eq (literal : IntegerLiteral) {suffix : List Char}
    (isSuffix : IsSuffix suffix) :
    unsigned? (literal.base.mark ++ (literal.digits ++ suffix))
      = some (literal.base.moduleMark ++ literal.digits) := by
  obtain ⟨sign, base, digits, nonempty, inBase, noLeadingZero⟩ := literal
  cases base with
  | decimal => exact unsigned?_decimal nonempty inBase (noLeadingZero rfl) isSuffix
  | octal => exact unsigned?_octal nonempty inBase isSuffix
  | hexadecimal capital =>
      exact unsigned?_hexadecimal (by cases capital <;> decide) nonempty inBase isSuffix
  | binary capital =>
      exact unsigned?_binary (by cases capital <;> decide) nonempty inBase isSuffix

theorem splitSign_eq (sign : LiteralSign) {body : List Char}
    (noSign : ∀ c ∈ body.head?, c ≠ '+' ∧ c ≠ '-') :
    splitSign (sign.text ++ body) = (sign.text, body) := by
  cases sign with
  | plus => rfl
  | minus => rfl
  | absent =>
      unfold splitSign LiteralSign.text
      split
      · next starts => exact absurd rfl (noSign '+' (by simpa using congrArg List.head? starts)).1
      · next starts => exact absurd rfl (noSign '-' (by simpa using congrArg List.head? starts)).2
      · rfl

theorem noSign_of_bodyLetters {body : List Char} (body_letters : ∀ c ∈ body.head?, c ∈ bodyLetters) :
    ∀ c ∈ body.head?, c ≠ '+' ∧ c ≠ '-' := by
  have noSign : ∀ c ∈ bodyLetters, c ≠ '+' ∧ c ≠ '-' := by decide
  exact fun c head => noSign c (body_letters c head)

/-- The first character after a sign, whatever follows the digits. -/
theorem head_body (literal : IntegerLiteral) (rest : List Char) {mark : List Char}
    (isMark : mark = literal.base.mark ∨ mark = literal.base.moduleMark) :
    ∀ c ∈ (mark ++ (literal.digits ++ rest)).head?, c ∈ bodyLetters := by
  intro c head
  have starts : (mark ++ literal.digits).head? = some c := by
    rw [← List.append_assoc, List.head?_append] at head
    cases whole : (mark ++ literal.digits).head? with
    | none => exact absurd (List.append_eq_nil_iff.mp (List.head?_eq_none_iff.mp whole)).2 literal.nonempty
    | some first => rwa [whole, Option.some_or] at head
  apply literal.mem_bodyLetters
  rcases List.mem_append.mp (List.mem_of_mem_head? starts) with inMark | digit
  · rcases isMark with rfl | rfl
    · exact Or.inl inMark
    · exact Or.inr (Or.inl inMark)
  · exact Or.inr (Or.inr digit)

theorem signed?_eq (literal : IntegerLiteral) {suffix : List Char}
    (isSuffix : IsSuffix suffix) :
    signed? (literal.text ++ suffix) = some literal.moduleText := by
  have split := splitSign_eq literal.sign
    (noSign_of_bodyLetters (literal.head_body suffix (Or.inl rfl)))
  have whole : literal.text ++ suffix
      = literal.sign.text ++ (literal.base.mark ++ (literal.digits ++ suffix)) := by
    simp [IntegerLiteral.text]
  rw [whole, signed?, split]
  simp [literal.unsigned?_eq isSuffix, moduleText]

theorem beforeComment_eq_self {text : List Char} (noComment : '/' ∉ text) : beforeComment text = text := by
  fun_induction beforeComment text with
  | case1 => rfl
  | case2 => simp at noComment
  | case3 => simp at noComment
  | case4 c rest _ _ ih => rw [ih (List.not_mem_of_not_mem_cons noComment)]

/-- A text that spells a literal, up to a comment, is recognised as that literal. -/
theorem Spells.literalChars?_eq (spells : literal.Spells (beforeComment text)) :
    literalChars? text = some literal.moduleText := by
  obtain ⟨suffix, isSuffix, unwraps⟩ := spells.unwrapped_eq
  rw [literalChars?, unwraps, literal.signed?_eq isSuffix]

/-! ### Values -/

theorem mantissa?_eq_none {text : List Char}
    (ends : ∀ c ∈ (text.dropWhile isDecimal).head?, c ≠ '.' ∧ c ≠ 'e' ∧ c ≠ 'E') :
    mantissa? text = none := by
  unfold mantissa?
  dsimp only
  split
  · next rest => exact absurd rfl (ends '.' (by simp [rest])).1
  · next rest => exact absurd rfl (ends 'e' (by simp [rest])).2.1
  · next rest => exact absurd rfl (ends 'E' (by simp [rest])).2.2
  · rfl

/-- A literal of a module is no floating literal: neither a point nor an exponent follows its first
digits. -/
theorem isFloating_moduleText (literal : IntegerLiteral) : isFloating literal.moduleText = false := by
  have split := splitSign_eq literal.sign
    (noSign_of_bodyLetters (literal.head_body [] (Or.inr rfl)))
  have noMantissa : mantissa? (literal.base.moduleMark ++ literal.digits) = none := by
    apply mantissa?_eq_none
    obtain ⟨sign, base, digits, nonempty, inBase, noLeadingZero⟩ := literal
    rcases base with _ | _ | (_ | _) | (_ | _)
    case decimal =>
      have digit : ∀ c ∈ LiteralBase.decimal.digits, isDecimal c = true := by decide
      have dropped : digits.dropWhile isDecimal = [] :=
        List.dropWhile_eq_nil_iff.mpr fun c member => digit c (inBase c member)
      simp [LiteralBase.moduleMark, LiteralBase.mark, dropped]
    all_goals
      intro c head
      cases head
      decide
  rw [moduleText, List.append_assoc, isFloating, ← List.append_nil literal.digits, split]
  simp [floating?, noMantissa]

end IntegerLiteral
end Spelling

namespace Number

open Spelling Text

/-- The digits of a base that a text begins with are read, up to what is none of them. -/
theorem digitRun_eq {base : LiteralBase} {digits rest : List Char}
    (inBase : ∀ c ∈ digits, c ∈ base.digits)
    (stops : ∀ c ∈ rest.head?, (c == '_') = false ∧ digitIn? base.radix c = none) :
    digitRun base.radix false (digits ++ rest) = some (digits.map base.digitValue, rest) := by
  have noUnderscore : ∀ c ∈ base.digits, (c == '_') = false := by
    rcases base with _ | _ | (_ | _) | (_ | _) <;> decide
  induction digits with
  | nil =>
      cases rest with
      | nil => rfl
      | cons c others =>
          obtain ⟨other, notDigit⟩ := stops c rfl
          rw [List.nil_append, digitRun, other, if_neg (by decide), notDigit]
          rfl
  | cons c rest ih =>
      have member := inBase c List.mem_cons_self
      rw [List.cons_append, digitRun, noUnderscore c member, if_neg (by decide)]
      simp [LiteralBase.digitIn?_eq_digitValue member,
        ih fun c later => inBase c (List.mem_cons_of_mem _ later)]

/-- Digits of a base are read with the value that they spell, once the base is settled and its letters are
off. -/
theorem readMagnitude_eq {base : LiteralBase} {asked : Nat} {text digits : List Char} {onlyZero : Bool}
    (settled : resolveBase asked text = (base.radix, onlyZero))
    (off : afterBaseLetters base.radix text = digits) (nonempty : digits ≠ [])
    (inBase : ∀ c ∈ digits, c ∈ base.digits)
    (zero : onlyZero = true → ofDigits base.radix (digits.map base.digitValue) = 0)
    (limit : base = .decimal → digits.length ≤ decimalLimit) :
    readMagnitude asked text = some (ofDigits base.radix (digits.map base.digitValue)) := by
  have noUnderscore : ∀ c ∈ base.digits, c ≠ '_' := by
    rcases base with _ | _ | (_ | _) | (_ | _) <;> decide
  have starts : ¬ digits.head? = some '_' := fun head =>
    noUnderscore '_' (inBase _ (List.mem_of_mem_head? head)) rfl
  have short : ¬ (base.radix = 10 ∧ decimalLimit < digits.length) := by
    rintro ⟨ten, long⟩
    have isDecimal : base = .decimal := by
      rcases base with _ | _ | (_ | _) | (_ | _) <;> first | rfl | cases ten
    exact absurd (limit isDecimal) (Nat.not_le.mpr long)
  have run : digitRun base.radix false digits = some (digits.map base.digitValue, []) := by
    rw [← List.append_nil digits, digitRun_eq inBase (by simp), List.append_nil]
  unfold readMagnitude
  rw [settled]
  dsimp only
  rw [off, if_neg (by simpa using starts), run]
  dsimp only
  rw [if_neg]
  simp only [List.isEmpty_iff, List.map_eq_nil_iff, nonempty, List.length_map, List.all_nil,
    Bool.not_true, Bool.or_false, Bool.or_eq_true, Bool.and_eq_true, decide_eq_true_eq, bne_iff_ne,
    beq_iff_eq, false_or, not_or]
  exact ⟨fun both => both.2 (zero both.1), short⟩

/-- A text of ASCII characters without blanks is read after its sign. -/
theorem readInteger_signed {asked : Nat} {sign : LiteralSign} {body : List Char}
    (bodyLetters : ∀ c ∈ body, c ∈ IntegerLiteral.bodyLetters) :
    readInteger asked (sign.text ++ body) = (readMagnitude asked body).map sign.apply := by
  have known : ∀ c ∈ sign.text ++ body, c ∈ IntegerLiteral.letters := by
    intro c member
    rcases List.mem_append.mp member with inSign | inBody
    · exact IntegerLiteral.mem_letters_of_mem_sign inSign
    · exact List.mem_append_left _ (bodyLetters c inBody)
  have ascii : asciiForm (sign.text ++ body) = sign.text ++ body := by
    have all : (sign.text ++ body).all (·.toNat < 128) = true :=
      List.all_eq_true.mpr fun c member =>
        decide_eq_true (IntegerLiteral.plain_letters c (known c member)).2.2
    rw [asciiForm, if_pos all]
  have noBlank : (sign.text ++ body).dropWhile isNumberBlank = sign.text ++ body := by
    cases whole : sign.text ++ body with
    | nil => rfl
    | cons c rest =>
        have member : c ∈ sign.text ++ body := by rw [whole]; exact List.mem_cons_self
        simp [(IntegerLiteral.plain_letters c (known c member)).2.1]
  rw [readInteger, ascii, noBlank]
  cases sign with
  | plus => cases read : readMagnitude asked body <;> simp [LiteralSign.text, LiteralSign.apply, read]
  | minus => cases read : readMagnitude asked body <;> simp [LiteralSign.text, LiteralSign.apply, read]
  | absent =>
      have noSign := IntegerLiteral.noSign_of_bodyLetters fun c head =>
        bodyLetters c (List.mem_of_mem_head? head)
      rw [LiteralSign.text, List.nil_append]
      split
      · exact absurd rfl (noSign '-' rfl).2
      · exact absurd rfl (noSign '+' rfl).1
      · cases readMagnitude asked body <;> rfl

/-- The mark that a module writes before the digits of a literal settles their base, and is taken off. -/
theorem resolveBase_moduleMark (literal : IntegerLiteral) :
    ∃ onlyZero,
      resolveBase 0 (literal.base.moduleMark ++ literal.digits) = (literal.base.radix, onlyZero) ∧
      (onlyZero = true → literal.magnitude = 0) ∧
      afterBaseLetters literal.base.radix (literal.base.moduleMark ++ literal.digits) = literal.digits := by
  obtain ⟨sign, base, digits, nonempty, inBase, noLeadingZero⟩ := literal
  obtain ⟨first, rest, rfl⟩ := List.exists_cons_of_ne_nil nonempty
  rcases base with _ | _ | (_ | _) | (_ | _)
  case decimal =>
    by_cases zero : first = '0'
    · subst zero
      obtain rfl := noLeadingZero rfl rest rfl
      exact ⟨true, rfl, fun _ => rfl, rfl⟩
    · refine ⟨false, ?_, by simp, ?_⟩
      · dsimp only [LiteralBase.moduleMark, LiteralBase.mark, List.nil_append]
        unfold resolveBase
        split
        · next starts => exact absurd (List.cons.inj starts).1 zero
        · rfl
      · dsimp only [LiteralBase.moduleMark, LiteralBase.mark, List.nil_append]
        unfold afterBaseLetters
        split
        · next starts => exact absurd (List.cons.inj starts).1 zero
        · rfl
  all_goals
    have noUnderscore : first ≠ '_' := by
      rintro rfl
      exact absurd (inBase '_' List.mem_cons_self) (by decide)
    refine ⟨false, rfl, by simp, ?_⟩
    simp [LiteralBase.moduleMark, LiteralBase.mark, LiteralBase.radix, afterBaseLetters, baseOfLetter?,
      noUnderscore]

/-- The digits of a literal are read behind the mark that a module writes for its base. -/
theorem readMagnitude_moduleMark {literal : IntegerLiteral} (readable : literal.Readable) :
    readMagnitude 0 (literal.base.moduleMark ++ literal.digits) = some literal.magnitude := by
  obtain ⟨onlyZero, settled, zero, off⟩ := resolveBase_moduleMark literal
  exact readMagnitude_eq settled off literal.nonempty literal.inBase zero readable

/-- A literal of a module is read in its own base with its value. -/
theorem readInteger_moduleText {literal : IntegerLiteral} (readable : literal.Readable) :
    readInteger 0 literal.moduleText = some literal.value := by
  have letters : ∀ c ∈ literal.base.moduleMark ++ literal.digits, c ∈ IntegerLiteral.bodyLetters := by
    intro c member
    apply literal.mem_bodyLetters
    rcases List.mem_append.mp member with mark | digit
    · exact Or.inr (Or.inl mark)
    · exact Or.inr (Or.inr digit)
  rw [IntegerLiteral.moduleText, List.append_assoc, readInteger_signed letters,
    readMagnitude_moduleMark readable, Option.map_some, IntegerLiteral.value]

end Number

namespace Spelling

open Text Number

variable {literal : IntegerLiteral}

/-- A text that spells a literal, up to a comment, is written for a module as that literal. -/
theorem literal?_of_spells {text : String} (spells : literal.Spells (beforeComment text.toList)) :
    literal? text = some (String.ofList literal.moduleText) := by
  rw [literal?, spells.literalChars?_eq, Option.map_some]

/-- A text without apostrophes is no character constant. -/
theorem integerValue_of_noApostrophe {text : String} (noApostrophe : '\'' ∉ text.toList) :
    integerValue text = .ok (literalInteger? (strip text.toList)) := by
  have notConstant : charBody? (strip text.toList) = none := by
    have absent : '\'' ∉ strip text.toList := fun member => noApostrophe (mem_of_mem_strip member)
    unfold charBody?
    split
    · next starts => simp [starts] at absent
    · next starts => simp [starts] at absent
    · rfl
  rw [integerValue, notConstant]

/-- A text that spells a literal has the value of that literal, if the reader of numbers takes it. -/
theorem integerValue_of_spells {text : String} (spells : literal.Spells text.toList)
    (readable : literal.Readable) : integerValue text = .ok (some literal.value) := by
  have noComment : '/' ∉ strip text.toList := fun member => spells.not_mem.1 (mem_of_mem_strip member)
  have recognised : literalChars? (strip text.toList) = some literal.moduleText := by
    rw [literalChars?, IntegerLiteral.beforeComment_eq_self noComment, strip_strip]
    obtain ⟨suffix, isSuffix, unwraps⟩ := spells.unwrapped_eq
    rw [unwraps, literal.signed?_eq isSuffix]
  rw [integerValue_of_noApostrophe spells.not_mem.2, literalInteger?, recognised]
  simp [literal.isFloating_moduleText, readInteger_moduleText readable]

/-- What a module writes for an octal literal is no literal of C. -/
theorem integerValue_of_octal (octal : literal.base = .octal) :
    integerValue (String.ofList literal.moduleText) = .ok none := by
  have unread : unsigned? (literal.base.moduleMark ++ literal.digits) = none := by
    have noOctalDigit : isOctal 'o' = false := by decide
    obtain ⟨notOctal, notDecimal⟩ :=
      IntegerLiteral.not_octal_of_letter literal.digits noOctalDigit (by decide)
    have notFloating : mantissa? ('0' :: 'o' :: literal.digits) = none :=
      IntegerLiteral.mantissa?_eq_none (by rintro c ⟨⟩; decide)
    simp [octal, LiteralBase.moduleMark, unsigned?, notOctal, notDecimal, hexadecimal?, binary?,
      floating?, notFloating]
  have solid : strip literal.moduleText = literal.moduleText :=
    strip_eq_self_of_solid fun c member =>
      (IntegerLiteral.plain_letters c (IntegerLiteral.mem_letters_of_mem_moduleText member)).1
  have absent {c : Char} (other : c ∉ IntegerLiteral.letters) : c ∉ literal.moduleText :=
    fun member => other (IntegerLiteral.mem_letters_of_mem_moduleText member)
  obtain ⟨slash, apostrophe, -⟩ := IntegerLiteral.marks_not_mem_letters
  have split := IntegerLiteral.splitSign_eq literal.sign
    (IntegerLiteral.noSign_of_bodyLetters (literal.head_body [] (Or.inr rfl)))
  have unbroken : Unbroken literal.moduleText :=
    IntegerLiteral.unbroken_of_letters fun _ => IntegerLiteral.mem_letters_of_mem_moduleText
  have notLiteral : literalChars? literal.moduleText = none := by
    rw [literalChars?, IntegerLiteral.beforeComment_eq_self (absent slash), solid, unwrapped,
      unbroken.bare.unwrapTimes_eq, signed?, IntegerLiteral.moduleText, List.append_assoc,
      ← List.append_nil literal.digits, split, List.append_nil]
    simp [unread]
  rw [integerValue_of_noApostrophe (by rw [String.toList_ofList]; exact absent apostrophe),
    String.toList_ofList, solid]
  simp [literalInteger?, notLiteral]

/-- What a module writes for a literal is read back with the literal's value, except that an octal literal is
not: its mark is none of C. -/
theorem integerValue_moduleText (readable : literal.Readable) :
    integerValue (String.ofList literal.moduleText)
      = .ok (if literal.base = .octal then none else some literal.value) := by
  by_cases octal : literal.base = .octal
  · rw [integerValue_of_octal octal, if_pos octal]
  · have same : literal.moduleText = literal.text := by
      rw [IntegerLiteral.moduleText, IntegerLiteral.text]
      cases base : literal.base <;> first | rfl | exact absurd base octal
    have spells : literal.Spells (String.ofList literal.moduleText).toList := by
      rw [String.toList_ofList, same, ← List.append_nil literal.text]
      exact .suffixed IntegerLiteral.isSuffix_nil
    rw [integerValue_of_spells spells readable, if_neg octal]

end Spelling

/-! ### Numbers in decimal -/

namespace Number

open Spelling Text

/-- Digits that do not begin with zero spell a number of as many digits. -/
theorem pow_le_ofDigits {base first : Nat} {rest : List Nat} (positive : 0 < first) :
    base ^ rest.length ≤ ofDigits base (first :: rest) := by
  have grows : ∀ (digits : List Nat) (start : Nat),
      start * base ^ digits.length
        ≤ digits.foldl (fun value digit => value * base + digit) start := by
    intro digits
    induction digits with
    | nil => intro start; simp
    | cons digit others ih =>
        intro start
        calc start * base ^ (others.length + 1)
            = start * base * base ^ others.length := by rw [Nat.pow_succ', Nat.mul_assoc]
          _ ≤ (start * base + digit) * base ^ others.length :=
              Nat.mul_le_mul_right _ (Nat.le_add_right _ _)
          _ ≤ _ := ih (start * base + digit)
  calc base ^ rest.length ≤ first * base ^ rest.length := Nat.le_mul_of_pos_left _ positive
    _ ≤ _ := by
        rw [ofDigits, List.foldl_cons, Nat.zero_mul, Nat.zero_add]
        exact grows rest first

/-- A literal whose value can be written can be read. -/
theorem readable_of_small {literal : IntegerLiteral} (small : literal.value.natAbs < 10 ^ decimalLimit) :
    literal.Readable := by
  intro isDecimal
  rw [IntegerLiteral.value, LiteralSign.natAbs_apply, IntegerLiteral.magnitude] at small
  cases digits : literal.digits with
  | nil => exact absurd digits literal.nonempty
  | cons first rest =>
      by_cases zero : first = '0'
      · subst zero
        rw [literal.noLeadingZero isDecimal rest digits]
        decide
      · have nonzero : ∀ c ∈ LiteralBase.decimal.digits,
            c ≠ '0' → 0 < LiteralBase.decimal.digitValue c := by
          decide
        have member : first ∈ LiteralBase.decimal.digits := by
          rw [← isDecimal]
          exact literal.inBase first (by rw [digits]; exact List.mem_cons_self)
        rw [digits, isDecimal, List.map_cons] at small
        have least := Nat.lt_of_le_of_lt (pow_le_ofDigits (nonzero first member zero)) small
        have ten : LiteralBase.decimal.radix = 10 := rfl
        rw [List.length_map, ten] at least
        exact (Nat.pow_lt_pow_iff_right (by decide)).mp least

theorem head_toDigits_ne_zero {n : Nat} (positive : 0 < n) (rest : List Char) :
    Nat.toDigits 10 n ≠ '0' :: rest := by
  induction n using Nat.strongRecOn generalizing rest with
  | ind n ih =>
      intro starts
      by_cases small : n < 10
      · rw [Nat.toDigits_of_lt_base small] at starts
        have isZero : (Nat.digitChar n).toNat = 48 := by rw [(List.cons.inj starts).1]; rfl
        rw [Nat.toNat_digitChar_of_lt_ten small] at isZero
        omega
      · rw [Nat.toDigits_of_base_le (by decide) (Nat.not_lt.mp small)] at starts
        cases front : Nat.toDigits 10 (n / 10) with
        | nil => exact Nat.toDigits_ne_nil front
        | cons first others =>
            rw [front] at starts
            obtain ⟨rfl, -⟩ := List.cons.inj starts
            exact ih (n / 10) (Nat.div_lt_self positive (by decide))
              (Nat.div_pos (Nat.not_lt.mp small) (by decide))
              others front

theorem mem_decimal_digits {c : Char} (digit : c.isDigit = true) : c ∈ LiteralBase.decimal.digits := by
  have codes : ∀ code < 58, 48 ≤ code → Char.ofNat code ∈ LiteralBase.decimal.digits := by decide
  rw [Char.isDigit, Bool.and_eq_true, decide_eq_true_eq, decide_eq_true_eq] at digit
  have least : 48 ≤ c.toNat := UInt32.le_iff_toNat_le.mp digit.1
  have most : c.toNat ≤ 57 := UInt32.le_iff_toNat_le.mp digit.2
  have member := codes c.toNat (by omega) least
  rwa [Char.ofNat_toNat] at member

/-- A number in decimal, as a literal. -/
def decimalLiteral (n : Int) : IntegerLiteral where
  sign := if n < 0 then .minus else .absent
  base := .decimal
  digits := Nat.toDigits 10 n.natAbs
  nonempty := Nat.toDigits_ne_nil
  inBase := fun _ member =>
    mem_decimal_digits (Nat.isDigit_of_mem_toDigits (by decide) (by decide) member)
  noLeadingZero := by
    intro _ rest starts
    rcases Nat.eq_zero_or_pos n.natAbs with zero | positive
    · rw [zero] at starts
      exact (List.cons.inj starts).2.symm
    · exact absurd starts (head_toDigits_ne_zero positive rest)

theorem moduleText_decimalLiteral (n : Int) : (decimalLiteral n).moduleText = (toString n).toList := by
  cases n with
  | ofNat n =>
      have text : toString (Int.ofNat n) = Nat.repr n := rfl
      rw [text, Nat.repr_eq_ofList_toDigits, String.toList_ofList]
      rfl
  | negSucc n =>
      have text : toString (Int.negSucc n) = "-" ++ Nat.repr (n + 1) := rfl
      have negative : Int.negSucc n < 0 := Int.negSucc_lt_zero n
      rw [text, Nat.repr_eq_ofList_toDigits, IntegerLiteral.moduleText, decimalLiteral, if_pos negative]
      simp only [String.toList_append, String.toList_ofList]
      rfl

theorem digitValue_decimal {c : Char} (member : c ∈ LiteralBase.decimal.digits) :
    LiteralBase.decimal.digitValue c = c.toNat - '0'.toNat := by
  have values : ∀ c ∈ LiteralBase.decimal.digits,
      LiteralBase.decimal.digitValue c = c.toNat - '0'.toNat := by decide
  exact values c member

theorem value_decimalLiteral (n : Int) : (decimalLiteral n).value = n := by
  have magnitude : (decimalLiteral n).magnitude = n.natAbs := by
    have digitValues : (decimalLiteral n).digits.map LiteralBase.decimal.digitValue
        = (decimalLiteral n).digits.map fun c => c.toNat - '0'.toNat :=
      List.map_congr_left fun c member => digitValue_decimal ((decimalLiteral n).inBase c member)
    have spelled := Nat.ofDigitChars_ten_toDigits (n := n.natAbs)
    simp only [Nat.ofDigitChars_eq_foldl, Nat.mul_comm 10] at spelled
    calc (decimalLiteral n).magnitude
        = ofDigits 10 ((decimalLiteral n).digits.map fun c => c.toNat - '0'.toNat) :=
          congrArg (ofDigits 10) digitValues
      _ = n.natAbs := by
          rw [ofDigits, List.foldl_map]
          exact spelled
  rw [IntegerLiteral.value, magnitude, decimalLiteral]
  dsimp only
  split
  · next negative =>
      rw [LiteralSign.apply]
      omega
  · next nonnegative =>
      change (n.natAbs : Int) = n
      omega

/-- A number of as many digits as can be read is read as it was written. -/
theorem readInteger_toString {n : Int} (small : n.natAbs < 10 ^ decimalLimit) :
    readInteger 0 (toString n).toList = some n := by
  have readable : (decimalLiteral n).Readable := fun _ =>
    (Nat.length_toDigits_le_iff (by decide) (by decide)).mpr small
  rw [← moduleText_decimalLiteral, readInteger_moduleText readable, value_decimalLiteral]

end Number
end HeaderBindings
