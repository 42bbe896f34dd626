/-
Module: HeaderBindings.Spelling.Literal
Purpose: Numeric literals of C: their recognition, and their form in a generated module.
Main exports: Spelling.beforeComment, Spelling.unwrapped, Spelling.literal?, Spelling.isFloating
-/
import HeaderBindings.Text.Blank
import HeaderBindings.Text.Digit

namespace HeaderBindings.Spelling

open Text

/-! ### What surrounds a literal -/

/-- Text before the first mark that opens a comment. -/
def beforeComment : List Char → List Char
  | [] => []
  | '/' :: '/' :: _ => []
  | '/' :: '*' :: _ => []
  | c :: rest => c :: beforeComment rest

/-- What stands between an opening parenthesis at the start and a closing one at the end, without
outer blanks. -/
def unwrapOnce? : List Char → Option (List Char)
  | '(' :: rest =>
      if rest.getLast? == some ')' then some (strip rest.dropLast) else none
  | _ => none

/-- Text without the outer parentheses that a number of steps can remove. -/
def unwrapTimes : Nat → List Char → List Char
  | 0, text => text
  | steps + 1, text =>
      match unwrapOnce? text with
      | some inner => unwrapTimes steps inner
      | none => text

/-- Text without outer parentheses and the blanks inside them. Each pair takes two characters, so
the length bounds their number. -/
def unwrapped (text : List Char) : List Char :=
  unwrapTimes text.length text

/-! ### Digits and suffixes -/

/-- An octal digit. -/
def isOctal (c : Char) : Bool :=
  '0' ≤ c && c ≤ '7'

/-- A hexadecimal digit. -/
def isHexadecimal (c : Char) : Bool :=
  c.isDigit || ('a' ≤ c && c ≤ 'f') || ('A' ≤ c && c ≤ 'F')

/-- A binary digit. -/
def isBinary (c : Char) : Bool :=
  c == '0' || c == '1'

/-- A letter of the suffix of an integer literal. -/
def isIntegerSuffix (c : Char) : Bool :=
  c == 'u' || c == 'U' || c == 'l' || c == 'L'

/-- A letter that may follow a floating literal. -/
def isFloatingSuffix (c : Char) : Bool :=
  c == 'f' || c == 'F' || c == 'l' || c == 'L'

/-- A text cut after its sign, if it has one. -/
def splitSign : List Char → List Char × List Char
  | '+' :: rest => (['+'], rest)
  | '-' :: rest => (['-'], rest)
  | text => ([], text)

/-- The longest start of a text whose characters satisfy a test, and what follows it; none if that
start is empty. -/
def run? (test : Char → Bool) (text : List Char) : Option (List Char × List Char) :=
  match text.takeWhile test with
  | [] => none
  | digits => some (digits, text.dropWhile test)

/-! ### The forms of a literal

Each reader takes a text without sign and answers the literal without its suffix, if the whole text
is one literal of its form. -/

/-- The number before a suffix, if the rest of the text is a suffix of an integer literal. -/
def withIntegerSuffix (number : List Char) (rest : List Char) : Option (List Char) :=
  if rest.all isIntegerSuffix then some number else none

/-- An octal literal: a zero before further octal digits. It is written with the letter `o`. -/
def octal? : List Char → Option (List Char)
  | '0' :: rest => do
      let (digits, suffix) ← run? isOctal rest
      withIntegerSuffix ('0' :: 'o' :: digits) suffix
  | _ => none

/-- A decimal literal: zero alone, or digits that begin with an ASCII digit other than zero. -/
def decimal? : List Char → Option (List Char)
  | '0' :: suffix => withIntegerSuffix ['0'] suffix
  | c :: rest =>
      if c.isDigit then withIntegerSuffix (c :: rest.takeWhile isDecimal) (rest.dropWhile isDecimal)
      else none
  | [] => none

/-- A hexadecimal literal. -/
def hexadecimal? : List Char → Option (List Char)
  | '0' :: letter :: rest =>
      if letter == 'x' || letter == 'X' then do
        let (digits, suffix) ← run? isHexadecimal rest
        withIntegerSuffix ('0' :: letter :: digits) suffix
      else none
  | _ => none

/-- A binary literal. -/
def binary? : List Char → Option (List Char)
  | '0' :: letter :: rest =>
      if letter == 'b' || letter == 'B' then do
        let (digits, suffix) ← run? isBinary rest
        withIntegerSuffix ('0' :: letter :: digits) suffix
      else none
  | _ => none

/-- An exponent at the start of a text, and what follows it. -/
def exponent? : List Char → Option (List Char × List Char)
  | letter :: rest =>
      if letter == 'e' || letter == 'E' then do
        let (sign, body) := splitSign rest
        let (digits, tail) ← run? isDecimal body
        some (letter :: sign ++ digits, tail)
      else none
  | [] => none

/-- The digits of a floating literal before its exponent, and what follows them: digits with a point
before, among or after them, or digits alone if an exponent letter follows. -/
def mantissa? (text : List Char) : Option (List Char × List Char) :=
  let whole := text.takeWhile isDecimal
  match text.dropWhile isDecimal with
  | '.' :: rest =>
      let fraction := rest.takeWhile isDecimal
      if whole.isEmpty && fraction.isEmpty then none
      else some (whole ++ '.' :: fraction, rest.dropWhile isDecimal)
  | 'e' :: rest => if whole.isEmpty then none else some (whole, 'e' :: rest)
  | 'E' :: rest => if whole.isEmpty then none else some (whole, 'E' :: rest)
  | _ => none

/-- A floating literal, with at most one suffix letter. -/
def floating? (text : List Char) : Option (List Char) := do
  let (mantissa, rest) ← mantissa? text
  let (exponent, suffix) := (exponent? rest).getD ([], rest)
  match suffix with
  | [] => some (mantissa ++ exponent)
  | [letter] => if isFloatingSuffix letter then some (mantissa ++ exponent) else none
  | _ => none

/-- A literal of any form, without sign. -/
def unsigned? (text : List Char) : Option (List Char) :=
  (octal? text).or <| (decimal? text).or <| (hexadecimal? text).or <| (binary? text).or <|
    floating? text

/-- A literal with an optional sign, without its suffix. -/
def signed? (text : List Char) : Option (List Char) :=
  let (sign, body) := splitSign text
  (unsigned? body).map (sign ++ ·)

/-- Whether a text is a floating literal with an optional sign. -/
def isFloating (text : List Char) : Bool :=
  (floating? (splitSign text).2).isSome

/-- The literal that a text consists of, apart from a comment that ends it, blanks and outer
parentheses. -/
def literalChars? (text : List Char) : Option (List Char) :=
  signed? (unwrapped (strip (beforeComment text)))

/-- The literal that a string consists of, apart from a comment that ends it, blanks and outer
parentheses; its suffix is dropped and an octal literal gets its letter. -/
def literal? (text : String) : Option String :=
  (literalChars? text.toList).map String.ofList

end HeaderBindings.Spelling
