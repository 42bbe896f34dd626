/-
Module: HeaderBindings.Pattern.Token
Purpose: Tokens of the pattern language: parentheses, and words between them.
Main exports: Pattern.Token, Pattern.tokens, Pattern.readHead?, Pattern.fragmentName?
-/
import HeaderBindings.Pattern.Basic
import HeaderBindings.Text.Word

namespace HeaderBindings.Pattern

open Text

/-- A token: a parenthesis, or a run of other characters without blanks. -/
inductive Token where
  | opening
  | closing
  | word (text : List Char)
deriving Repr, DecidableEq

namespace Token

/-- The text of a token. -/
def text : Token → List Char
  | opening => ['(']
  | closing => [')']
  | word text => text

end Token

/-- The token of a word given last letter first, if it has any letter. -/
def wordToken (current : List Char) : List Token :=
  if current.isEmpty then [] else [.word current.reverse]

/-- The tokens of a text after the letters of the current word, last letter first. -/
def tokensFrom (current : List Char) : List Char → List Token
  | [] => wordToken current
  | c :: rest =>
      if c == '(' then wordToken current ++ .opening :: tokensFrom [] rest
      else if c == ')' then wordToken current ++ .closing :: tokensFrom [] rest
      else if isBlank c then wordToken current ++ tokensFrom [] rest
      else tokensFrom (c :: current) rest

/-- The tokens of a text in order. -/
def tokens (text : List Char) : List Token :=
  tokensFrom [] text

/-! ### Words -/

/-- A character that may follow the first one of an identifier in a pattern. -/
def isNameChar (c : Char) : Bool :=
  c.isAlphanum || c == '_'

/-- An identifier: an ASCII letter or underscore before ASCII letters, digits and underscores. -/
def isIdentifier : List Char → Bool
  | [] => false
  | c :: rest => isIdentifierStart c && rest.all isNameChar

/-- Kinds with bars between them: every part between bars is an identifier. -/
def isKindList (text : List Char) : Bool :=
  (splitAtMark '|' text).all isIdentifier

/-- The quantifier whose mark ends a word, and the word before the mark. -/
def splitQuantifier (word : List Char) : List Char × Quantifier :=
  match word.getLast? with
  | some '+' => (word.dropLast, .oneOrMore)
  | some '*' => (word.dropLast, .zeroOrMore)
  | some '?' => (word.dropLast, .zeroOrOne)
  | some '!' => (word.dropLast, .alternative)
  | _ => (word, .one)

/-- A word without a caret at its start, and whether it has one. -/
def splitCaret : List Char → List Char × Bool
  | '^' :: rest => (rest, true)
  | word => (word, false)

/-- The head that a word spells: a caret or none, kinds or none, and the mark of a quantifier or
none. -/
def readHead? (word : List Char) : Option Head :=
  let (body, recursive) := splitCaret word
  let (name, quantifier) := splitQuantifier body
  if name.isEmpty || isKindList name then some ⟨Head.kindsOfName name, quantifier, recursive⟩
  else none

/-- The name of the fragment that a word refers to: an identifier after an at sign. -/
def fragmentName? : List Char → Option (List Char)
  | '@' :: name => if isIdentifier name then some name else none
  | _ => none

end HeaderBindings.Pattern
