/-
Module: HeaderBindings.Pattern.Compose
Purpose: A new pattern over the patterns of existing ones.
Main exports: Pattern.compose
-/
import HeaderBindings.Pattern.Printer
import HeaderBindings.Text.Word

namespace HeaderBindings.Pattern

open Text

/-- A part of a composed pattern's name: an ASCII letter or underscore before word characters of any
script. -/
def isComposedKind : List Char → Bool
  | [] => false
  | c :: rest => isIdentifierStart c && rest.all isWord

/-- A name that a composed pattern may have: none, or parts with bars between them; one line feed may
follow them. -/
def isComposedName (name : List Char) : Bool :=
  let body := if name.getLast? == some '\n' then name.dropLast else name
  name.isEmpty || (splitAtMark '|' body).all isComposedKind

/-- A pattern whose children are those of some parts, one after another. -/
def compose (name : String) (parts : List (List Pattern)) (quantifier : Quantifier) :
    Except PatternError Pattern :=
  let pattern := node ⟨Head.kindsOfName name.toList, quantifier, false⟩ parts.flatten
  if !isComposedName name.toList then .error ⟨.invalidName name, pattern.render 0⟩
  else if endsOpen pattern.children then
    .error ⟨.danglingAlternative pattern.head.name, pattern.render 0⟩
  else .ok pattern

end HeaderBindings.Pattern
