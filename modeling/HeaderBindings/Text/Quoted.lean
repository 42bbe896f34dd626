/-
Module: HeaderBindings.Text.Quoted
Purpose: Quoted form of a text: quotes around it, and escapes for what a reader could not see.
Main exports: Text.hexDigits, Text.quote
-/
import HeaderBindings.Text.Visible

namespace HeaderBindings.Text

/-- A number in lower-case hexadecimal, padded with zeros to a width. -/
def hexDigits (width n : Nat) : List Char :=
  let digits := Nat.toDigits 16 n
  List.replicate (width - digits.length) '0' ++ digits

/-- The quote around a text: the apostrophe, unless the text holds one and no double quote. -/
def quoteMark (text : List Char) : Char :=
  if text.contains '\'' && !text.contains '"' then '"' else '\''

/-- One character inside quotes. The mark and the backslash are escaped; a tab, a line feed and a
carriage return have letters; any other character that is not visible is written by its number. -/
def quoteChar (mark c : Char) : List Char :=
  if c == mark || c == '\\' then ['\\', c]
  else if c == '\t' then ['\\', 't']
  else if c == '\n' then ['\\', 'n']
  else if c == '\r' then ['\\', 'r']
  else if isVisible c then [c]
  else if c.toNat < 0x100 then '\\' :: 'x' :: hexDigits 2 c.toNat
  else if c.toNat < 0x10000 then '\\' :: 'u' :: hexDigits 4 c.toNat
  else '\\' :: 'U' :: hexDigits 8 c.toNat

/-- A text between quotes. -/
def quoteChars (text : List Char) : List Char :=
  let mark := quoteMark text
  mark :: text.flatMap (quoteChar mark) ++ [mark]

/-- The quoted form of a string. -/
def quote (text : String) : String :=
  String.ofList (quoteChars text.toList)

end HeaderBindings.Text
