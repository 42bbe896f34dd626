/-
Module: HeaderBindings.Pattern.Printer
Purpose: The written form of a pattern, one line for each pattern in it.
Main exports: Pattern.render
-/
import HeaderBindings.Pattern.Basic

namespace HeaderBindings.Pattern

mutual

/-- The written form of a pattern. Its first line is indented by a number of spaces, and the lines
of its children by one space more; a negative indent counts as none. -/
def renderChars (indent : Int) : Pattern → List Char
  | node head children =>
      List.replicate indent.toNat ' ' ++ '(' :: head.text.toList
        ++ renderChildren (indent + 1) children ++ [')']

/-- The written forms of sibling patterns, each on lines of its own. -/
def renderChildren (indent : Int) : List Pattern → List Char
  | [] => []
  | first :: rest => '\n' :: renderChars indent first ++ renderChildren indent rest

end

/-- The written form of a pattern. -/
def render (pattern : Pattern) (indent : Int) : String :=
  String.ofList (renderChars indent pattern)

end HeaderBindings.Pattern
