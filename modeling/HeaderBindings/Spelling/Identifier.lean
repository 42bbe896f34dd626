/-
Module: HeaderBindings.Spelling.Identifier
Purpose: The name under which a C identifier is bound in a generated module.
Main exports: Spelling.keywords, Spelling.isKeyword, Spelling.collapseUnderscores,
  Spelling.bindingName
-/
import HeaderBindings.Text.Blank

namespace HeaderBindings.Spelling

open Text

/-- The words that a generated module cannot bind. -/
def keywords : List String :=
  ["False", "None", "True", "and", "as", "assert", "async", "await", "break", "class", "continue",
   "def", "del", "elif", "else", "except", "finally", "for", "from", "global", "if", "import", "in",
   "is", "lambda", "nonlocal", "not", "or", "pass", "raise", "return", "try", "while", "with",
   "yield"]

/-- Whether a text is a keyword. -/
def isKeyword (text : List Char) : Bool :=
  keywords.any fun keyword => keyword.toList == text

/-- Text with every run of underscores written as one. -/
def collapseUnderscores : List Char → List Char
  | '_' :: '_' :: rest => collapseUnderscores ('_' :: rest)
  | c :: rest => c :: collapseUnderscores rest
  | [] => []

/-- Text without its outer underscores. -/
def stripUnderscores (text : List Char) : List Char :=
  dropEndWhile (· == '_') (text.dropWhile (· == '_'))

/-- The characters of a bound name: outer blanks and then outer underscores fall away, runs of
underscores shrink to one, and a keyword gets an underscore at its end. -/
def bindingChars (text : List Char) : List Char :=
  let name := collapseUnderscores (stripUnderscores (strip text))
  if isKeyword name then name ++ ['_'] else name

/-- The name under which a C identifier is bound. -/
def bindingName (text : String) : String :=
  String.ofList (bindingChars text.toList)

end HeaderBindings.Spelling
