/-
Module: HeaderBindings.Proofs.LiteralForms
Purpose: What the readers of literals recognise, part by part: the mark, digits and suffix of an integer, and
  the digits, point and exponent of a floating literal, in digits of any script.
Main exports: Spelling.IntegerForm, Spelling.MantissaForm, Spelling.integerForm_or_floating,
  Spelling.mantissa?_eq_some_iff, Spelling.exponent?_eq_some_iff, Spelling.unbroken_of_signed?
-/
import HeaderBindings.Proofs.LiteralCharacters

namespace HeaderBindings.Spelling

open Text IntegerLiteral

variable {text shown rest : List Char}

/-! ### Comments -/

/-- A text has no mark that opens a comment, or the first one follows what stands before the comment. -/
theorem beforeComment_eq_self_or (text : List Char) :
    beforeComment text = text ∨
      ∃ mark behind, mark ∈ ['/', '*'] ∧ text = beforeComment text ++ '/' :: mark :: behind := by
  fun_induction beforeComment text with
  | case1 => exact Or.inl rfl
  | case2 behind => exact Or.inr ⟨'/', behind, by decide, rfl⟩
  | case3 behind => exact Or.inr ⟨'*', behind, by decide, rfl⟩
  | case4 c rest _ _ ih =>
      rcases ih with same | ⟨mark, behind, isMark, parts⟩
      · exact Or.inl (congrArg (c :: ·) same)
      · exact Or.inr ⟨mark, behind, isMark, congrArg (c :: ·) parts⟩

/-- A text without marks that open comments stands before any comment. -/
theorem beforeComment_eq_self_of_unmarked (noLine : ¬ ['/', '/'] <:+: text)
    (noBlock : ¬ ['/', '*'] <:+: text) : beforeComment text = text := by
  rcases beforeComment_eq_self_or text with same | ⟨mark, behind, isMark, parts⟩
  · exact same
  · have isInfix : ['/', mark] <:+: text :=
      ⟨beforeComment text, behind, by rw [parts]; simp [← parts]⟩
    have eq : mark = '/' ∨ mark = '*' := by simpa using isMark
    rcases eq with rfl | rfl
    · exact absurd isInfix noLine
    · exact absurd isInfix noBlock

/-! ### Integers -/

/-- A text consists of a base's mark, of digits and of a suffix, as an integer literal without sign does. -/
structure IntegerForm (base : LiteralBase) (digits suffix text : List Char) : Prop where
  parts : text = base.mark ++ (digits ++ suffix)
  nonempty : digits ≠ []
  shown : ∀ c ∈ digits, base.shows c = true
  noLeadingZero : base = .decimal → ∀ rest, digits = '0' :: rest → rest = []
  isSuffix : IsSuffix suffix

theorem isSuffix_of_withIntegerSuffix {number : List Char}
    (found : withIntegerSuffix number rest = some shown) : IsSuffix rest := by
  rw [withIntegerSuffix] at found
  split at found
  · next all => exact fun c member =>
      mem_suffixLetters_of_isIntegerSuffix (List.all_eq_true.mp all c member)
  · cases found

/-- A run of a base's digits before a suffix, behind the mark of a base that has one. -/
theorem integerForm_of_run {base : LiteralBase} {digits suffix number : List Char}
    (marked : base ≠ .decimal)
    (runs : run? base.shows rest = some (digits, suffix))
    (withSuffix : withIntegerSuffix number suffix = some shown) :
    IntegerForm base digits suffix (base.mark ++ rest) := by
  obtain ⟨rfl, nonempty, passes, -⟩ := run?_eq_some_iff.mp runs
  exact ⟨rfl, nonempty, passes, fun isDecimal => absurd isDecimal marked,
    isSuffix_of_withIntegerSuffix withSuffix⟩

theorem integerForm_of_octal? (found : octal? text = some shown) :
    ∃ digits suffix, IntegerForm .octal digits suffix text := by
  unfold octal? at found
  split at found
  · obtain ⟨⟨digits, suffix⟩, runs, withSuffix⟩ := Option.bind_eq_some_iff.mp found
    exact ⟨digits, suffix, integerForm_of_run (by simp) runs withSuffix⟩
  · cases found

theorem integerForm_of_decimal? (found : decimal? text = some shown) :
    ∃ digits suffix, IntegerForm .decimal digits suffix text := by
  unfold decimal? at found
  split at found
  · next suffix =>
      refine ⟨['0'], suffix, rfl, by simp, ?_, ?_, isSuffix_of_withIntegerSuffix found⟩
      · intro c member
        obtain rfl := List.mem_singleton.mp member
        decide
      · rintro _ rest ⟨⟩
        rfl
  · next c rest notZero =>
      split at found
      · next digit =>
          refine ⟨c :: rest.takeWhile isDecimal, rest.dropWhile isDecimal, ?_, by simp, ?_, ?_,
            isSuffix_of_withIntegerSuffix found⟩
          · simp [LiteralBase.mark]
          · intro other member
            rcases List.mem_cons.mp member with rfl | later
            · exact LiteralBase.decimal.shows_of_mem_digits (Number.mem_decimal_digits digit)
            · exact List.mem_takeWhile_imp later
          · rintro _ others starts
            obtain ⟨rfl, -⟩ := List.cons.inj starts
            exact absurd rfl notZero
      · cases found
  · cases found

theorem integerForm_of_hexadecimal? (found : hexadecimal? text = some shown) :
    ∃ capital digits suffix, IntegerForm (.hexadecimal capital) digits suffix text := by
  unfold hexadecimal? at found
  split at found
  · next letter rest =>
      split at found
      · next named =>
          obtain ⟨⟨digits, suffix⟩, runs, withSuffix⟩ := Option.bind_eq_some_iff.mp found
          have eq : letter = 'x' ∨ letter = 'X' := by simpa using named
          rcases eq with rfl | rfl
          · exact ⟨false, digits, suffix, integerForm_of_run (by simp) runs withSuffix⟩
          · exact ⟨true, digits, suffix, integerForm_of_run (by simp) runs withSuffix⟩
      · cases found
  · cases found

theorem integerForm_of_binary? (found : binary? text = some shown) :
    ∃ capital digits suffix, IntegerForm (.binary capital) digits suffix text := by
  unfold binary? at found
  split at found
  · next letter rest =>
      split at found
      · next named =>
          obtain ⟨⟨digits, suffix⟩, runs, withSuffix⟩ := Option.bind_eq_some_iff.mp found
          have eq : letter = 'b' ∨ letter = 'B' := by simpa using named
          rcases eq with rfl | rfl
          · exact ⟨false, digits, suffix, integerForm_of_run (by simp) runs withSuffix⟩
          · exact ⟨true, digits, suffix, integerForm_of_run (by simp) runs withSuffix⟩
      · cases found
  · cases found

/-- What is recognised as a literal has the form of an integer of one of the bases, or is recognised as a
floating literal. -/
theorem integerForm_or_floating (found : unsigned? text = some shown) :
    (∃ base digits suffix, IntegerForm base digits suffix text) ∨ floating? text = some shown := by
  rw [unsigned?, Option.or_eq_some_iff, Option.or_eq_some_iff, Option.or_eq_some_iff,
    Option.or_eq_some_iff] at found
  rcases found with octal | ⟨-, decimal | ⟨-, hexadecimal | ⟨-, binary | ⟨-, floating⟩⟩⟩⟩
  · exact Or.inl ⟨_, integerForm_of_octal? octal⟩
  · exact Or.inl ⟨_, integerForm_of_decimal? decimal⟩
  · obtain ⟨capital, form⟩ := integerForm_of_hexadecimal? hexadecimal
    exact Or.inl ⟨_, form⟩
  · obtain ⟨capital, form⟩ := integerForm_of_binary? binary
    exact Or.inl ⟨_, form⟩
  · exact Or.inr floating

/-! ### Floating literals -/

/-- A fraction behind its point. -/
def pointText : Option (List Char) → List Char
  | none => []
  | some digits => '.' :: digits

/-- The digits before and behind the point of a floating literal: there are some. -/
structure MantissaForm (whole : List Char) (fraction : Option (List Char)) : Prop where
  wholeShown : ∀ c ∈ whole, isDecimal c = true
  fractionShown : ∀ digits ∈ fraction, ∀ c ∈ digits, isDecimal c = true
  hasDigits : whole ≠ [] ∨ ∃ digits ∈ fraction, digits ≠ []

/-- What may stand behind the digits of a floating literal: no further digit behind a fraction, and without
a point the letter of an exponent. -/
def EndsMantissa (rest : List Char) : Option (List Char) → Prop
  | some _ => ∀ c ∈ rest.head?, isDecimal c = false
  | none => ∃ c ∈ rest.head?, c ∈ ['e', 'E']

/-- What is recognised up to an exponent has the digits and the point of a floating literal. -/
theorem exists_mantissaForm (found : mantissa? text = some (shown, rest)) :
    ∃ whole fraction, MantissaForm whole fraction ∧ EndsMantissa rest fraction ∧
      text = whole ++ (pointText fraction ++ rest) ∧ shown = whole ++ pointText fraction := by
  have wholeShown : ∀ c ∈ text.takeWhile isDecimal, isDecimal c = true :=
    fun c member => List.mem_takeWhile_imp member
  have cut := List.takeWhile_append_dropWhile (p := isDecimal) (l := text)
  -- Without a point, the digits are those before the letter of the exponent.
  have withoutPoint : ∀ letter tail,
      letter ∈ ['e', 'E'] → text.dropWhile isDecimal = letter :: tail →
      (if (text.takeWhile isDecimal).isEmpty then none
        else some (text.takeWhile isDecimal, letter :: tail)) = some (shown, rest) →
      MantissaForm (text.takeWhile isDecimal) none ∧ EndsMantissa rest none ∧
        text = text.takeWhile isDecimal ++ (pointText none ++ rest) ∧
        shown = text.takeWhile isDecimal ++ pointText none := by
    intro letter tail isLetter lettered found
    split at found
    · cases found
    · next digits =>
        obtain ⟨rfl, rfl⟩ := Prod.mk.inj (Option.some.inj found)
        refine ⟨⟨wholeShown, by simp, Or.inl (by simpa using digits)⟩,
          ⟨_, rfl, isLetter⟩, ?_, ?_⟩
        · rw [pointText, List.nil_append, ← lettered, cut]
        · rw [pointText, List.append_nil]
  unfold mantissa? at found
  dsimp only at found
  split at found
  · next tail pointed =>
      split at found
      · cases found
      · next digits =>
          obtain ⟨isShown, rfl⟩ := Prod.mk.inj (Option.some.inj found)
          refine ⟨text.takeWhile isDecimal, some (tail.takeWhile isDecimal), ⟨wholeShown, ?_, ?_⟩,
            fun _ => head?_dropWhile, ?_, isShown.symm⟩
          · rintro digits ⟨⟩ c member
            exact List.mem_takeWhile_imp member
          · by_contra none
            rw [not_or, not_not, not_exists] at none
            have noFraction : tail.takeWhile isDecimal = [] :=
              not_not.mp fun some => none.2 _ ⟨rfl, some⟩
            simp [none.1, noFraction] at digits
          · rw [pointText, List.cons_append, List.takeWhile_append_dropWhile, ← pointed, cut]
  · next tail lettered => exact ⟨_, none, withoutPoint 'e' tail (by decide) lettered found⟩
  · next tail lettered => exact ⟨_, none, withoutPoint 'E' tail (by decide) lettered found⟩
  · cases found

/-- The digits and the point of a floating literal are recognised. -/
theorem MantissaForm.mantissa?_eq {whole : List Char} {fraction : Option (List Char)}
    (form : MantissaForm whole fraction) (ends : EndsMantissa rest fraction) :
    mantissa? (whole ++ (pointText fraction ++ rest)) = some (whole ++ pointText fraction, rest) := by
  cases fraction with
  | some digits =>
      have stops : ∀ c ∈ ('.' :: (digits ++ rest)).head?, isDecimal c = false := by
        rintro c ⟨⟩
        decide
      obtain ⟨takenWhole, droppedWhole⟩ := takeWhile_append_of_fails form.wholeShown stops
      obtain ⟨taken, dropped⟩ := takeWhile_append_of_fails (form.fractionShown digits rfl) ends
      have some : (whole.isEmpty && digits.isEmpty) = false := by
        rcases form.hasDigits with nonempty | ⟨_, ⟨⟩, nonempty⟩
        · simp [nonempty]
        · simp [nonempty]
      simp [mantissa?, pointText, takenWhole, droppedWhole, taken, dropped, some]
  | none =>
      obtain ⟨letter, head, isLetter⟩ := ends
      obtain ⟨tail, rfl⟩ := List.head?_eq_some_iff.mp head
      have letterFails : ∀ c ∈ ['e', 'E'], isDecimal c = false := by decide
      have stops : ∀ c ∈ (letter :: tail).head?, isDecimal c = false := by
        rintro c ⟨⟩
        exact letterFails letter isLetter
      obtain ⟨taken, dropped⟩ := takeWhile_append_of_fails form.wholeShown stops
      have some : whole ≠ [] := by
        rcases form.hasDigits with nonempty | ⟨_, ⟨⟩, -⟩
        exact nonempty
      have eq : letter = 'e' ∨ letter = 'E' := by simpa using isLetter
      rcases eq with rfl | rfl <;> simp [mantissa?, pointText, taken, dropped, some]

theorem mantissa?_eq_some_iff :
    mantissa? text = some (shown, rest) ↔
      ∃ whole fraction, MantissaForm whole fraction ∧ EndsMantissa rest fraction ∧
        text = whole ++ (pointText fraction ++ rest) ∧ shown = whole ++ pointText fraction := by
  constructor
  · exact exists_mantissaForm
  · rintro ⟨whole, fraction, form, ends, rfl, rfl⟩
    exact form.mantissa?_eq ends

/-- The letter of an exponent. -/
def exponentLetter (capital : Bool) : Char := if capital then 'E' else 'e'

/-- A text is cut after its sign. -/
theorem exists_splitSign (text : List Char) :
    ∃ (sign : LiteralSign) (body : List Char), splitSign text = (sign.text, body) ∧
      text = sign.text ++ body := by
  unfold splitSign
  split
  · exact ⟨.plus, _, rfl, rfl⟩
  · exact ⟨.minus, _, rfl, rfl⟩
  · exact ⟨.absent, _, rfl, rfl⟩

theorem exponent?_eq_some_iff :
    exponent? text = some (shown, rest) ↔
      ∃ (capital : Bool) (sign : LiteralSign) (digits : List Char), digits ≠ [] ∧
        (∀ c ∈ digits, isDecimal c = true) ∧ (∀ c ∈ rest.head?, isDecimal c = false) ∧
        text = exponentLetter capital :: (sign.text ++ (digits ++ rest)) ∧
        shown = exponentLetter capital :: (sign.text ++ digits) := by
  constructor
  · intro found
    unfold exponent? at found
    split at found
    · next letter behind =>
        split at found
        · next named =>
            obtain ⟨sign, body, cut, rfl⟩ := exists_splitSign behind
            rw [cut] at found
            obtain ⟨⟨digits, tail⟩, runs, same⟩ := Option.bind_eq_some_iff.mp found
            obtain ⟨rfl, nonempty, passes, fails⟩ := run?_eq_some_iff.mp runs
            obtain ⟨rfl, rfl⟩ := Prod.mk.inj (Option.some.inj same)
            have isLetter : ∃ capital, letter = exponentLetter capital := by
              have eq : letter = 'e' ∨ letter = 'E' := by simpa using named
              rcases eq with rfl | rfl
              · exact ⟨false, rfl⟩
              · exact ⟨true, rfl⟩
            obtain ⟨capital, rfl⟩ := isLetter
            exact ⟨capital, sign, digits, nonempty, passes, fails, rfl, rfl⟩
        · cases found
    · cases found
  · rintro ⟨capital, sign, digits, nonempty, passes, fails, rfl, rfl⟩
    have noSign : ∀ c ∈ (digits ++ rest).head?, c ≠ '+' ∧ c ≠ '-' := by
      obtain ⟨first, others, rfl⟩ := List.exists_cons_of_ne_nil nonempty
      rintro c ⟨⟩
      have isDigit := passes first List.mem_cons_self
      constructor <;>
      · rintro rfl
        exact absurd isDigit (by decide)
    have runs := run?_eq_some_iff.mpr ⟨rfl, nonempty, passes, fails⟩
    have named : (exponentLetter capital == 'e' || exponentLetter capital == 'E') = true := by
      cases capital <;> rfl
    simp [exponent?, named, splitSign_eq sign noSign, runs]

/-- A text is empty, or one letter that may follow a floating literal. -/
def IsFloatingSuffix (text : List Char) : Prop := text = [] ∨ ∃ letter ∈ "fFlL".toList, text = [letter]

/-- What is recognised as a floating literal are its digits, an exponent or none, and a suffix. -/
theorem exists_parts_of_floating? (found : floating? text = some shown) :
    ∃ mantissa rest exponent suffix, mantissa? text = some (mantissa, rest) ∧ IsFloatingSuffix suffix ∧
      (exponent? rest = some (exponent, suffix) ∨ exponent = [] ∧ rest = suffix) := by
  obtain ⟨⟨mantissa, rest⟩, digits, found⟩ := Option.bind_eq_some_iff.mp found
  have parts : exponent? rest = some ((exponent? rest).getD ([], rest)) ∨
      ((exponent? rest).getD ([], rest)).1 = [] ∧ rest = ((exponent? rest).getD ([], rest)).2 := by
    cases exponent? rest with
    | none => exact Or.inr ⟨rfl, rfl⟩
    | some both => exact Or.inl rfl
  refine ⟨mantissa, rest, _, _, digits, ?_, parts⟩
  dsimp only at found
  split at found
  · next isEmpty => exact Or.inl isEmpty
  · next letter isOne =>
      split at found
      · next named =>
          have eq : ((letter = 'f' ∨ letter = 'F') ∨ letter = 'l') ∨ letter = 'L' := by
            simpa [isFloatingSuffix] using named
          refine Or.inr ⟨letter, ?_, isOne⟩
          rcases eq with ((rfl | rfl) | rfl) | rfl <;> decide
      · cases found
  · cases found

/-! ### Characters -/

/-- A character of words, a point or a sign. -/
def IsLiteralChar (c : Char) : Prop := isWord c = true ∨ c ∈ ".+-".toList

theorem isLiteralChar_of_mem_sign {sign : LiteralSign} {c : Char} (member : c ∈ sign.text) :
    IsLiteralChar c := by
  cases sign with
  | absent => cases member
  | plus =>
      obtain rfl := List.mem_singleton.mp member
      exact Or.inr (by decide)
  | minus =>
      obtain rfl := List.mem_singleton.mp member
      exact Or.inr (by decide)

theorem isLiteralChar_of_mantissa? (found : mantissa? text = some (shown, rest))
    (known : ∀ c ∈ rest, IsLiteralChar c) : ∀ c ∈ text, IsLiteralChar c := by
  obtain ⟨whole, fraction, form, -, rfl, -⟩ := mantissa?_eq_some_iff.mp found
  intro c member
  rcases List.mem_append.mp member with inWhole | behind
  · exact Or.inl (isWord_of_isDecimal (form.wholeShown c inWhole))
  · rcases List.mem_append.mp behind with pointed | inRest
    · cases fraction with
      | none => cases pointed
      | some digits =>
          rcases List.mem_cons.mp pointed with rfl | inFraction
          · exact Or.inr (by decide)
          · exact Or.inl (isWord_of_isDecimal (form.fractionShown digits rfl c inFraction))
    · exact known c inRest

theorem isLiteralChar_of_exponent? (found : exponent? text = some (shown, rest))
    (known : ∀ c ∈ rest, IsLiteralChar c) : ∀ c ∈ text, IsLiteralChar c := by
  obtain ⟨capital, sign, digits, -, passes, -, rfl, -⟩ := exponent?_eq_some_iff.mp found
  intro c member
  rcases List.mem_cons.mp member with rfl | behind
  · exact Or.inl (by cases capital <;> decide)
  · rcases List.mem_append.mp behind with inSign | later
    · exact isLiteralChar_of_mem_sign inSign
    · rcases List.mem_append.mp later with digit | inRest
      · exact Or.inl (isWord_of_isDecimal (passes c digit))
      · exact known c inRest

theorem isLiteralChar_of_floating? (found : floating? text = some shown) :
    ∀ c ∈ text, IsLiteralChar c := by
  obtain ⟨mantissa, rest, exponent, suffix, digits, isSuffix, parts⟩ := exists_parts_of_floating? found
  have words : ∀ c ∈ "fFlL".toList, isWord c = true := by decide
  have knownSuffix : ∀ c ∈ suffix, IsLiteralChar c := by
    rintro c member
    rcases isSuffix with rfl | ⟨letter, isLetter, rfl⟩
    · cases member
    · obtain rfl := List.mem_singleton.mp member
      exact Or.inl (words c isLetter)
  apply isLiteralChar_of_mantissa? digits
  rcases parts with exponent | ⟨-, rfl⟩
  · exact isLiteralChar_of_exponent? exponent knownSuffix
  · exact knownSuffix

theorem IntegerForm.isLiteralChar {base : LiteralBase} {digits suffix : List Char}
    (form : IntegerForm base digits suffix text) : ∀ c ∈ text, IsLiteralChar c := by
  have marks : ∀ c ∈ base.mark, isWord c = true := by
    rcases base with _ | _ | (_ | _) | (_ | _) <;> decide
  have letters : ∀ c ∈ suffixLetters, isWord c = true := by decide
  intro c member
  rw [form.parts] at member
  rcases List.mem_append.mp member with mark | behind
  · exact Or.inl (marks c mark)
  · rcases List.mem_append.mp behind with digit | letter
    · exact Or.inl (base.ofWords_shows c (form.shown c digit))
    · exact Or.inl (letters c (form.isSuffix c letter))

/-- A literal consists of characters of words, points and signs. -/
theorem isLiteralChar_of_signed? (found : signed? text = some shown) : ∀ c ∈ text, IsLiteralChar c := by
  obtain ⟨sign, body, cut, rfl⟩ := exists_splitSign text
  rw [signed?, cut] at found
  obtain ⟨number, recognised, -⟩ := Option.map_eq_some_iff.mp found
  have inBody : ∀ c ∈ body, IsLiteralChar c := by
    rcases integerForm_or_floating recognised with ⟨base, digits, suffix, form⟩ | floating
    · exact form.isLiteralChar
    · exact isLiteralChar_of_floating? floating
  intro c member
  rcases List.mem_append.mp member with inSign | later
  · exact isLiteralChar_of_mem_sign inSign
  · exact inBody c later

/-- Neither blanks nor parentheses are in a literal. -/
theorem unbroken_of_signed? (found : signed? text = some shown) : Unbroken text := by
  have marks : ∀ c ∈ ".+-".toList, isBlank c = false ∧ c ≠ '(' ∧ c ≠ ')' := by decide
  intro c member
  rcases isLiteralChar_of_signed? found c member with word | mark
  · refine ⟨?_, ?_, ?_⟩
    · rw [← Bool.not_eq_true]
      exact fun blank => absurd (word.symm.trans (isWord_of_isBlank blank)) (by decide)
    all_goals
      rintro rfl
      exact absurd word (by decide)
  · exact marks c mark

end HeaderBindings.Spelling
