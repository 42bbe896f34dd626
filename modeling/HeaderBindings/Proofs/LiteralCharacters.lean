/-
Module: HeaderBindings.Proofs.LiteralCharacters
Purpose: Which characters the tests for digits and suffixes pass: digits of the bases, letters of
  suffixes, and in any case characters of words, which blanks are not.
Main exports: Text.mem_digits_of_isDecimal, Text.isWord_of_isDecimal, Text.isWord_of_isBlank,
  Spelling.OfWords, Spelling.OfWords.fails, Spelling.LiteralBase.shows,
  Spelling.LiteralBase.shows_of_mem_digits, Spelling.LiteralBase.mem_digits_of_shows
-/
import HeaderBindings.Proofs.IntegerLiterals
import HeaderBindings.Spelling.Expression

namespace HeaderBindings

namespace Text

/-- The characters that pass a test are among some letters if this is so of those with a code below a bound,
and all have such a code. -/
theorem mem_of_passes {test : Char → Bool} {letters : List Char} {bound : Nat} {c : Char}
    (checked : ∀ code < bound, test (Char.ofNat code) = true → Char.ofNat code ∈ letters)
    (small : c.toNat < bound) (passes : test c = true) : c ∈ letters := by
  have member := checked c.toNat small
  rw [Char.ofNat_toNat] at member
  exact member passes

/-- An ASCII character that is a decimal digit is a digit of base ten. -/
theorem mem_digits_of_isDecimal {c : Char} (ascii : c.toNat < 128) (digit : isDecimal c = true) :
    c ∈ Spelling.LiteralBase.decimal.digits := by
  have checked : ∀ code < 128, isDecimal (Char.ofNat code) = true →
      Char.ofNat code ∈ Spelling.LiteralBase.decimal.digits := by decide
  exact mem_of_passes checked ascii digit

/-- Each range of decimal digits lies within a range of letters and numbers. -/
theorem decimalRanges_within :
    (decimalRanges.all fun digits =>
      wordRanges.any fun range => range.1.ble digits.1 && digits.2.ble range.2) = true := by
  decide +kernel

/-- Decimal digits of all scripts belong to words. -/
theorem isWord_of_isDecimal {c : Char} (digit : isDecimal c = true) : isWord c = true := by
  by_cases ascii : c.toNat < 128
  · have words : ∀ c ∈ Spelling.LiteralBase.decimal.digits, isWord c = true := by decide
    exact words c (mem_digits_of_isDecimal ascii digit)
  · rw [isDecimal, decimalValue?] at digit
    simp only [ascii, if_false, Option.isSome_map, List.find?_isSome, Bool.and_eq_true,
      decide_eq_true_eq] at digit
    obtain ⟨digits, member, least, most⟩ := digit
    have within := List.all_eq_true.mp decimalRanges_within digits member
    obtain ⟨range, inRange, within⟩ := List.any_eq_true.mp within
    rw [Bool.and_eq_true, Nat.ble_eq, Nat.ble_eq] at within
    rw [isWord, if_neg ascii, inRanges, List.any_eq_true]
    refine ⟨range, inRange, ?_⟩
    simp only [Bool.and_eq_true, decide_eq_true_eq]
    omega

/-- The ranges of blanks beyond ASCII. -/
def blankRanges : List (Nat × Nat) :=
  [(0x85, 0x85), (0xA0, 0xA0), (0x1680, 0x1680), (0x2000, 0x200A), (0x2028, 0x2029), (0x202F, 0x202F),
   (0x205F, 0x205F), (0x3000, 0x3000)]

/-- No range of letters and numbers meets a range of blanks. -/
theorem wordRanges_outside :
    (wordRanges.all fun range => blankRanges.all fun blanks =>
      range.2.blt blanks.1 || blanks.2.blt range.1) = true := by
  decide +kernel

/-- Blanks end words. -/
theorem isWord_of_isBlank {c : Char} (blank : isBlank c = true) : isWord c = false := by
  by_cases ascii : c.toNat < 128
  · have checked : ∀ code < 128,
        isBlank (Char.ofNat code) = true → isWord (Char.ofNat code) = false := by
      decide
    have isCode := checked c.toNat ascii
    rw [Char.ofNat_toNat] at isCode
    exact isCode blank
  · have isRange : ∃ blanks ∈ blankRanges, blanks.1 ≤ c.toNat ∧ c.toNat ≤ blanks.2 := by
      simp only [isBlank, ascii, if_false, Bool.or_eq_true, Bool.and_eq_true, decide_eq_true_eq,
        beq_iff_eq] at blank
      simp only [blankRanges, List.mem_cons, exists_eq_or_imp, List.not_mem_nil, or_false, exists_eq_left]
      omega
    obtain ⟨blanks, isBlanks, least, most⟩ := isRange
    rw [isWord, if_neg ascii, inRanges, List.any_eq_false]
    intro range member within
    have outside := List.all_eq_true.mp wordRanges_outside range member
    have outside := List.all_eq_true.mp outside blanks isBlanks
    simp only [Bool.or_eq_true, Nat.blt_eq, Bool.and_eq_true, decide_eq_true_eq] at outside within
    omega

end Text

namespace Spelling

open Text

/-! ### Digits of the bases and letters of suffixes -/

variable {c : Char}

theorem toNat_le_of_le {c bound : Char} (le : c ≤ bound) : c.toNat ≤ bound.toNat :=
  UInt32.le_iff_toNat_le.mp le

theorem mem_digits_of_isOctal (digit : isOctal c = true) : c ∈ LiteralBase.octal.digits := by
  have checked : ∀ code < 56, isOctal (Char.ofNat code) = true →
      Char.ofNat code ∈ LiteralBase.octal.digits := by decide
  have most : c ≤ '7' := by
    rw [isOctal, Bool.and_eq_true, decide_eq_true_eq, decide_eq_true_eq] at digit
    exact digit.2
  exact mem_of_passes checked (Nat.lt_succ_of_le (toNat_le_of_le most)) digit

theorem mem_digits_of_isHexadecimal (capital : Bool) (digit : isHexadecimal c = true) :
    c ∈ (LiteralBase.hexadecimal capital).digits := by
  have checked : ∀ code < 103, isHexadecimal (Char.ofNat code) = true →
      Char.ofNat code ∈ (LiteralBase.hexadecimal capital).digits := by
    cases capital <;> decide
  have small : c.toNat ≤ 'f'.toNat := by
    simp only [isHexadecimal, Char.isDigit, Bool.or_eq_true, Bool.and_eq_true, decide_eq_true_eq] at digit
    rcases digit with (isDigit | isSmall) | isCapital
    · exact Nat.le_trans (toNat_le_of_le isDigit.2) (by decide)
    · exact toNat_le_of_le isSmall.2
    · exact Nat.le_trans (toNat_le_of_le isCapital.2) (by decide)
  exact mem_of_passes checked (Nat.lt_succ_of_le small) digit

theorem mem_digits_of_isBinary (capital : Bool) (digit : isBinary c = true) :
    c ∈ (LiteralBase.binary capital).digits := by
  have eq : c = '0' ∨ c = '1' := by simpa [isBinary] using digit
  rcases eq with rfl | rfl <;> cases capital <;> decide

theorem mem_suffixLetters_of_isIntegerSuffix (letter : isIntegerSuffix c = true) :
    c ∈ IntegerLiteral.suffixLetters := by
  have eq : ((c = 'u' ∨ c = 'U') ∨ c = 'l') ∨ c = 'L' := by simpa [isIntegerSuffix] using letter
  rcases eq with ((rfl | rfl) | rfl) | rfl <;> decide

/-! ### Characters of words -/

/-- A test passes characters of words only. -/
def OfWords (test : Char → Bool) : Prop := ∀ c, test c = true → isWord c = true

theorem ofWords_isDecimal : OfWords isDecimal := fun _ => isWord_of_isDecimal

theorem ofWords_isOctal : OfWords isOctal := by
  have checked : ∀ c ∈ LiteralBase.octal.digits, isWord c = true := by decide
  exact fun c digit => checked c (mem_digits_of_isOctal digit)

theorem ofWords_isHexadecimal : OfWords isHexadecimal := by
  have checked : ∀ c ∈ (LiteralBase.hexadecimal false).digits, isWord c = true := by decide
  exact fun c digit => checked c (mem_digits_of_isHexadecimal false digit)

theorem ofWords_isBinary : OfWords isBinary := by
  have checked : ∀ c ∈ (LiteralBase.binary false).digits, isWord c = true := by decide
  exact fun c digit => checked c (mem_digits_of_isBinary false digit)

theorem ofWords_isIntegerSuffix : OfWords isIntegerSuffix := by
  have checked : ∀ c ∈ IntegerLiteral.suffixLetters, isWord c = true := by decide
  exact fun c letter => checked c (mem_suffixLetters_of_isIntegerSuffix letter)

namespace LiteralBase

/-- The test for the digits of a base. A decimal literal may show digits of other scripts. -/
def shows : LiteralBase → Char → Bool
  | decimal => isDecimal
  | octal => isOctal
  | hexadecimal _ => isHexadecimal
  | binary _ => isBinary

theorem ofWords_shows (base : LiteralBase) : OfWords base.shows := by
  cases base with
  | decimal => exact ofWords_isDecimal
  | octal => exact ofWords_isOctal
  | hexadecimal capital => exact ofWords_isHexadecimal
  | binary capital => exact ofWords_isBinary

theorem shows_of_mem_digits (base : LiteralBase) (member : c ∈ base.digits) : base.shows c = true := by
  have all : ∀ c ∈ base.digits, base.shows c = true := by
    rcases base with _ | _ | (_ | _) | (_ | _) <;> decide
  exact all c member

/-- What is shown in ASCII as a digit of a base is one. -/
theorem mem_digits_of_shows {base : LiteralBase} (ascii : c.toNat < 128) (shown : base.shows c = true) :
    c ∈ base.digits := by
  cases base with
  | decimal => exact mem_digits_of_isDecimal ascii shown
  | octal => exact mem_digits_of_isOctal shown
  | hexadecimal capital => exact mem_digits_of_isHexadecimal capital shown
  | binary capital => exact mem_digits_of_isBinary capital shown

end LiteralBase

/-- A character that ends words fails tests that pass characters of words only. -/
theorem OfWords.fails {test : Char → Bool} (ofWords : OfWords test) (ends : isWord c = false) :
    test c = false := by
  rw [← Bool.not_eq_true]
  intro passes
  exact absurd ((ofWords c passes).symm.trans ends) (by decide)

end Spelling
end HeaderBindings
