/-
Module: HeaderBindings.Number.DecimalText
Purpose: Reading floating-point numbers written in decimal, and writing them with the fewest digits
  that read back.
Main exports: Number.readDecimal, Number.writeDecimal
-/
import HeaderBindings.Number.Binary64
import HeaderBindings.Number.IntegerText

namespace HeaderBindings.Number

open Text

/-! ### Reading -/

/-- A text without its underscores; none if an underscore does not stand between digits. -/
def joinDigits (afterDigit : Bool) : List Char → Option (List Char)
  | [] => some []
  | c :: rest =>
      if c == '_' then
        if afterDigit && rest.head?.any Char.isDigit then joinDigits false rest else none
      else (joinDigits c.isDigit rest).map (c :: ·)

/-- Take the sign off a number's text; answer whether it is a minus. -/
def takeSign : List Char → Bool × List Char
  | '-' :: rest => (true, rest)
  | '+' :: rest => (false, rest)
  | text => (false, text)

/-- The number that decimal digits spell. -/
def digitsValue (digits : List Char) : Nat :=
  ofDigits 10 (digits.map fun c => c.toNat - 48)

/-- The exponent at the end of a number's text: none of it, or the letter `e`, a sign and digits. -/
def readExponent : List Char → Option Int
  | [] => some 0
  | letter :: rest =>
      let (negative, digits) := takeSign rest
      if (letter == 'e' || letter == 'E') && !digits.isEmpty && digits.all Char.isDigit then
        some (if negative then -(digitsValue digits : Int) else digitsValue digits)
      else none

/-- The fraction of a number's text, if it begins with a point, and what follows it. -/
def takeFraction : List Char → List Char × List Char
  | '.' :: rest => (rest.takeWhile Char.isDigit, rest.dropWhile Char.isDigit)
  | text => ([], text)

/-- Read a decimal without sign: digits with at most one point, and an exponent. -/
def readUnsigned (text : List Char) : Option Decimal :=
  let whole := text.takeWhile Char.isDigit
  let (fraction, tail) := takeFraction (text.dropWhile Char.isDigit)
  if whole.isEmpty && fraction.isEmpty then none
  else (readExponent tail).map fun exponent =>
    ⟨digitsValue (whole ++ fraction), exponent - fraction.length⟩

/-- Read what follows the sign of a number: a word for infinity or for no number, in letters of any
case, or a decimal. -/
def readSigned (negative : Bool) (text : List Char) : Option Binary64 :=
  let word := String.ofList (text.map Char.toLower)
  if word == "inf" || word == "infinity" then some (.infinite negative)
  else if word == "nan" then some .notANumber
  else (readUnsigned text).map (Binary64.ofDecimal negative)

/-- Read a floating-point number: blanks around it, a sign, a word or a decimal, digits of any script,
single underscores between digits. -/
def readDecimal (text : List Char) : Option Binary64 :=
  let body := dropEndWhile isNumberBlank ((asciiForm text).dropWhile isNumberBlank)
  (joinDigits false body).bind fun joined =>
    let (negative, rest) := takeSign joined
    readSigned negative rest

/-! ### Writing -/

/-- Digits with a point after the first `before` of them; zeros fill up what is missing on either
side of the point. -/
def withPoint (digits : List Char) (before : Nat) : List Char :=
  let fraction := digits.drop before
  digits.take before ++ List.replicate (before - digits.length) '0' ++ ['.']
    ++ (if fraction.isEmpty then ['0'] else fraction)

/-- An exponent: the letter, the sign and at least two digits. -/
def exponentText (exponent : Int) : List Char :=
  let digits := Nat.toDigits 10 exponent.natAbs
  ['e', if exponent < 0 then '-' else '+'] ++ List.replicate (2 - digits.length) '0' ++ digits

/-- The digits of a decimal without the zeros at its end. -/
def significantDigits (decimal : Decimal) : List Char :=
  dropEndWhile (· == '0') (Nat.toDigits 10 decimal.digits)

/-- A decimal other than zero. The exponents of the first digit from -4 to 15 are written with a
point among the digits, all others after the digits. -/
def decimalText (decimal : Decimal) : List Char :=
  let digits := significantDigits decimal
  let exponent := decimal.exponent + digitCount decimal.digits - 1
  if exponent < -4 || 16 ≤ exponent then
    let fraction := digits.drop 1
    digits.take 1 ++ (if fraction.isEmpty then [] else '.' :: fraction) ++ exponentText exponent
  else if exponent < 0 then
    '0' :: '.' :: List.replicate (exponent.natAbs - 1) '0' ++ digits
  else withPoint digits (exponent.natAbs + 1)

/-- A floating-point number, with the fewest digits that read back. -/
def writeDecimal : Binary64 → String
  | .notANumber => "nan"
  | .infinite negative => if negative then "-inf" else "inf"
  | .finite negative magnitude =>
      let digits := if magnitude.significand == 0 then ['0', '.', '0']
        else decimalText magnitude.shortest
      String.ofList (if negative then '-' :: digits else digits)

end HeaderBindings.Number
