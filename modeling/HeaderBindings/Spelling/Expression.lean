/-
Module: HeaderBindings.Spelling.Expression
Purpose: Constant expressions of C with their numbers written for a generated module.
Main exports: Spelling.respellNumbers, Spelling.dropSuffix?, Spelling.markOctal?,
  Spelling.expression
-/
import HeaderBindings.Spelling.Literal
import HeaderBindings.Text.Word

namespace HeaderBindings.Spelling

open Text

/-- Whether a number cannot begin after this character. -/
def continuesWord (c : Char) : Bool :=
  isWord c || c == '.'

/-- Apply a rule wherever a number may begin: at the start, or after a character that neither
belongs to a word nor is a point. The rule answers the replacement and how many characters beyond
the first it stands for; these are passed over. -/
def respellNumbers (rule : List Char → Option (List Char × Nat)) :
    Bool → Nat → List Char → List Char
  | _, _, [] => []
  | _, skip + 1, c :: rest => respellNumbers rule (continuesWord c) skip rest
  | true, 0, c :: rest => c :: respellNumbers rule (continuesWord c) 0 rest
  | false, 0, c :: rest =>
      match rule (c :: rest) with
      | some (replacement, skip) => replacement ++ respellNumbers rule (continuesWord c) skip rest
      | none => c :: respellNumbers rule (continuesWord c) 0 rest

/-- Whether a word ends before this text. -/
def wordEnds (rest : List Char) : Bool :=
  match rest with
  | [] => true
  | c :: _ => !isWord c

/-- The digits of an integer at the start of a text with the letter of its base, and what follows
them. -/
def integerRun? (text : List Char) : Option (List Char × List Char) :=
  match text with
  | '0' :: letter :: rest =>
      if (letter == 'x' || letter == 'X') && (rest.takeWhile isHexadecimal).length > 0 then
        some ('0' :: letter :: rest.takeWhile isHexadecimal, rest.dropWhile isHexadecimal)
      else if (letter == 'b' || letter == 'B') && (rest.takeWhile isBinary).length > 0 then
        some ('0' :: letter :: rest.takeWhile isBinary, rest.dropWhile isBinary)
      else run? isDecimal text
  | _ => run? isDecimal text

/-- An integer whose suffix ends the word loses the suffix. -/
def dropSuffix? (text : List Char) : Option (List Char × Nat) := do
  let (number, rest) ← integerRun? text
  let (suffix, tail) ← run? isIntegerSuffix rest
  if wordEnds tail then some (number, number.length + suffix.length - 1) else none

/-- An octal integer that is a word of its own, with no point after it, gets its letter. -/
def markOctal? (text : List Char) : Option (List Char × Nat) :=
  match text with
  | '0' :: rest => do
      let (digits, tail) ← run? isOctal rest
      if wordEnds tail && tail.head? != some '.' then some ('0' :: 'o' :: digits, digits.length)
      else none
  | _ => none

/-- The characters of a constant expression, respelled. -/
def expressionChars (text : List Char) : List Char :=
  respellNumbers markOctal? false 0
    (respellNumbers dropSuffix? false 0 (strip (beforeComment text)))

/-- A constant expression without a comment that ends it and without outer blanks; its integers
lose their suffixes, and its octal integers get their letter. -/
def expression (text : String) : String :=
  String.ofList (expressionChars text.toList)

end HeaderBindings.Spelling
