/-
Module: HeaderBindings.Text.Blank
Purpose: Blank characters, and stripping and splitting text at them.
Main exports: Text.isBlank, Text.stripLeft, Text.stripRight, Text.strip, Text.words, Text.splitAtMark
-/

namespace HeaderBindings.Text

/-- The characters that separate words: the controls of the ranges 9-13 and 28-31, the space, the
next-line control, the no-break space, and the space and line separators beyond them. -/
def isBlank (c : Char) : Bool :=
  let n := c.toNat
  if n < 128 then (9 ≤ n && n ≤ 13) || (28 ≤ n && n ≤ 32)
  else n == 0x85 || n == 0xA0 || n == 0x1680 || (0x2000 ≤ n && n ≤ 0x200A)
    || n == 0x2028 || n == 0x2029 || n == 0x202F || n == 0x205F || n == 0x3000

/-- Text without its leading blanks. -/
def stripLeft (text : List Char) : List Char :=
  text.dropWhile isBlank

/-- Text without its last characters that satisfy a test. -/
def dropEndWhile (test : Char → Bool) (text : List Char) : List Char :=
  (text.reverse.dropWhile test).reverse

/-- Text without its trailing blanks. -/
def stripRight (text : List Char) : List Char :=
  dropEndWhile isBlank text

/-- Text without its outer blanks. -/
def strip (text : List Char) : List Char :=
  stripRight (stripLeft text)

/-- The words of a text, given the letters of the current word, last letter first. -/
def wordsFrom (current : List Char) : List Char → List (List Char)
  | [] => if current.isEmpty then [] else [current.reverse]
  | c :: rest =>
      if isBlank c then
        if current.isEmpty then wordsFrom [] rest else current.reverse :: wordsFrom [] rest
      else wordsFrom (c :: current) rest

/-- The maximal runs of characters that are not blank, in order. -/
def words (text : List Char) : List (List Char) :=
  wordsFrom [] text

/-- The parts of a text between the occurrences of a mark; there is one part more than marks. -/
def splitAtMark (mark : Char) : List Char → List (List Char)
  | [] => [[]]
  | c :: rest =>
      if c == mark then [] :: splitAtMark mark rest
      else match splitAtMark mark rest with
        | [] => [[c]]
        | part :: parts => (c :: part) :: parts

/-- The text of a string without its outer blanks. -/
def stripped (text : String) : String :=
  String.ofList (strip text.toList)

/-- The text of a string with every run of blanks written as one space and no outer blank. -/
def collapsed (text : String) : String :=
  String.ofList (List.intercalate [' '] (words text.toList))

end HeaderBindings.Text
