/-
Module: HeaderBindings.Text.Line
Purpose: The lines of a text.
Main exports: Text.endsLine, Text.lines, Text.withLineFeeds
-/

namespace HeaderBindings.Text

/-- Whether a character ends a line: the line feed, the controls of the ranges 11-13 and 28-30, the
next-line control, and the line and paragraph separators. -/
def endsLine (c : Char) : Bool :=
  let n := c.toNat
  (10 ≤ n && n ≤ 13) || (28 ≤ n && n ≤ 30) || n == 0x85 || n == 0x2028 || n == 0x2029

/-- The lines of a text, without what ends them. A carriage return and a line feed end one line. -/
def lines : List Char → List (List Char)
  | [] => []
  | '\r' :: '\n' :: rest => [] :: lines rest
  | c :: rest =>
      if endsLine c then [] :: lines rest
      else match lines rest with
        | [] => [[c]]
        | line :: more => (c :: line) :: more

/-- A text whose lines end in line feeds where they ended in carriage returns, or in both. -/
def withLineFeeds : List Char → List Char
  | [] => []
  | '\r' :: '\n' :: rest => '\n' :: withLineFeeds rest
  | c :: rest => (if c == '\r' then '\n' else c) :: withLineFeeds rest

end HeaderBindings.Text
