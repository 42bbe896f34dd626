/-
Module: HeaderBindings.Number.IntegerText
Purpose: Reading integers written in a base, and writing them in decimal.
Main exports: Number.readInteger, Number.decimalLimit, Number.writeInteger
-/
import HeaderBindings.Text.Blank
import HeaderBindings.Text.Digit

namespace HeaderBindings.Number

open Text

/-- The most digits a decimal integer may have, read or written. -/
def decimalLimit : Nat := 4300

/-- Blanks around a number: spaces and the controls 9-13. -/
def isNumberBlank (c : Char) : Bool :=
  c == ' ' || (9 ≤ c.toNat && c.toNat ≤ 13)

/-- A text brought to ASCII: digits of any script become ASCII digits, and blanks beyond ASCII become
spaces. The first other character beyond ASCII ends the text with a question mark. -/
def foldDigits : List Char → List Char
  | [] => []
  | c :: rest =>
      if c.toNat < 127 then c :: foldDigits rest
      else if isBlank c then ' ' :: foldDigits rest
      else match decimalValue? c with
        | some value => Nat.digitChar value :: foldDigits rest
        | none => ['?']

/-- The ASCII form of a number's text. An ASCII text stands as it is, with blanks other than
`isNumberBlank` left in it. -/
def asciiForm (text : List Char) : List Char :=
  if text.all (·.toNat < 128) then text else foldDigits text

/-- The value of a letter or digit in bases up to 36. -/
def digitValue? (c : Char) : Option Nat :=
  if c.isDigit then some (c.toNat - 48)
  else if c.isLower then some (c.toNat - 87)
  else if c.isUpper then some (c.toNat - 55)
  else none

/-- The value of a digit of a base. -/
def digitIn? (base : Nat) (c : Char) : Option Nat :=
  (digitValue? c).filter (· < base)

/-- The digits at the start of a text, single underscores between them skipped, and what follows
them. An underscore at the start, at the end or beside another one spoils the number. -/
def digitRun (base : Nat) (afterUnderscore : Bool) : List Char → Option (List Nat × List Char)
  | [] => if afterUnderscore then none else some ([], [])
  | c :: rest =>
      if c == '_' then if afterUnderscore then none else digitRun base true rest
      else match digitIn? base c with
        | some digit => (digitRun base false rest).map fun (digits, tail) => (digit :: digits, tail)
        | none => if afterUnderscore then none else some ([], c :: rest)

/-- The number that digits spell in a base. -/
def ofDigits (base : Nat) (digits : List Nat) : Nat :=
  digits.foldl (fun value digit => value * base + digit) 0

/-- The base named by the letter after a leading zero. -/
def baseOfLetter? (letter : Char) : Option Nat :=
  if letter == 'x' || letter == 'X' then some 16
  else if letter == 'o' || letter == 'O' then some 8
  else if letter == 'b' || letter == 'B' then some 2
  else none

/-- The base of a number without sign and whether it must be zero. A number that names its base
begins with a zero and the base's letter; otherwise base 0 means ten, and then only zero may begin
with a zero. -/
def resolveBase (base : Nat) : List Char → Nat × Bool
  | '0' :: rest =>
      if base != 0 then (base, false)
      else match rest.head?.bind baseOfLetter? with
        | some named => (named, false)
        | none => (10, true)
  | _ => (if base == 0 then 10 else base, false)

/-- What follows the letters that name a base, if they name this one; one underscore may follow
them. -/
def afterBaseLetters (base : Nat) (text : List Char) : List Char :=
  match text with
  | '0' :: letter :: rest =>
      if baseOfLetter? letter == some base then
        match rest with
        | '_' :: more => more
        | _ => rest
      else text
  | _ => text

/-- Read the part of a number after its sign. -/
def readMagnitude (base : Nat) (text : List Char) : Option Nat :=
  let (base, onlyZero) := resolveBase base text
  let body := afterBaseLetters base text
  if body.head? == some '_' then none
  else match digitRun base false body with
    | none => none
    | some (digits, tail) =>
        let value := ofDigits base digits
        if digits.isEmpty || (onlyZero && value != 0)
          || (base == 10 && digits.length > decimalLimit)
          || !(tail.all isNumberBlank) then none
        else some value

/-- Read an integer in a base from 2 to 36, or in the base that its own letters name if the base is
0: blanks around it, one sign, the letters of the base, and digits of any script with single
underscores between them. A decimal integer has at most `decimalLimit` digits. -/
def readInteger (base : Nat) (text : List Char) : Option Int :=
  match (asciiForm text).dropWhile isNumberBlank with
  | '-' :: rest => (readMagnitude base rest).map fun value => -(value : Int)
  | '+' :: rest => (readMagnitude base rest).map fun value => (value : Int)
  | rest => (readMagnitude base rest).map fun value => (value : Int)

/-- An integer in decimal; none if it has more than `decimalLimit` digits. -/
def writeInteger (n : Int) : Option String :=
  if n.natAbs < Nat.pow 10 decimalLimit then some (toString n) else none

end HeaderBindings.Number
