/-
Module: HeaderBindings.Spelling.IntegerValue
Purpose: The value of an integer literal or a character constant of C.
Main exports: Spelling.BadDigits, Spelling.charBody?, Spelling.charValue, Spelling.integerValue
-/
import HeaderBindings.Number.IntegerText
import HeaderBindings.Spelling.Literal
import HeaderBindings.Text.Quoted

namespace HeaderBindings.Spelling

open Text Number

/-- Digits of an escape that are no number in the base that it calls for. -/
structure BadDigits where
  base : Nat
  text : String
deriving Repr, DecidableEq

/-- The report of unreadable digits; it shows at most 200 characters of their quoted form. -/
def BadDigits.message (bad : BadDigits) : String :=
  "invalid literal for int() with base " ++ toString bad.base ++ ": "
    ++ String.ofList ((Text.quoteChars bad.text.toList).take 200)

/-- What stands between the apostrophes of a character constant, given the text after the first
one: a backslash, any character but a line feed and then no apostrophe; or one character that is
neither an apostrophe nor a backslash. -/
def quotedBody? : List Char → Option (List Char)
  | '\\' :: c :: rest =>
      if c != '\n' && rest.getLast? == some '\'' && rest.dropLast.all (· != '\'') then
        some ('\\' :: c :: rest.dropLast)
      else none
  | [c, '\''] => if c != '\'' && c != '\\' then some [c] else none
  | _ => none

/-- The body of a character constant, which may have a prefix letter. -/
def charBody? : List Char → Option (List Char)
  | '\'' :: rest => quotedBody? rest
  | letter :: '\'' :: rest =>
      if letter == 'L' || letter == 'u' || letter == 'U' then quotedBody? rest else none
  | _ => none

/-- The character of an escape of one letter. -/
def simpleEscape (c : Char) : Char :=
  if c == 'n' then '\n' else if c == 't' then '\t' else if c == 'r' then '\r'
  else if c == 'a' then '\x07' else if c == 'b' then '\x08'
  else if c == 'f' then '\x0c' else if c == 'v' then '\x0b' else c

/-- A number in a base, or the digits that are none. -/
def escapeNumber (base : Nat) (digits : List Char) : Except BadDigits Int :=
  match readInteger base digits with
  | some value => .ok value
  | none => .error ⟨base, String.ofList digits⟩

/-- The value of an escape, given the text after its backslash: a hexadecimal number after `x`, an
octal number if all characters show digits, the character of an escape of one letter, and otherwise
the first character itself. -/
def escapeValue : List Char → Except BadDigits Int
  | [] => .ok 0
  | c :: rest =>
      if c == 'x' || c == 'X' then escapeNumber 16 rest
      else if (c :: rest).all showsDigit then escapeNumber 8 (c :: rest)
      else if rest.isEmpty then .ok (simpleEscape c).toNat
      else .ok c.toNat

/-- The value of a character constant with this body. -/
def charValue : List Char → Except BadDigits Int
  | '\\' :: escape => escapeValue escape
  | c :: _ => .ok c.toNat
  | [] => .ok 0

/-- The value of an integer literal; none for a floating literal, for what is no literal, and for a
decimal literal with more than `Number.decimalLimit` digits. -/
def literalInteger? (text : List Char) : Option Int := do
  let literal ← literalChars? text
  if isFloating literal then none else readInteger 0 literal

/-- The value of an integer literal or a character constant; none if the text is neither. -/
def integerValue (text : String) : Except BadDigits (Option Int) :=
  let body := strip text.toList
  match charBody? body with
  | some escape => (charValue escape).map some
  | none => .ok (literalInteger? body)

end HeaderBindings.Spelling
