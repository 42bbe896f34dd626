/-
Module: HeaderBindings.Pattern.Parser
Purpose: Reading patterns from text, with named fragments spliced in.
Main exports: Pattern.Fragments, Pattern.readSequence, Pattern.parseFragment, Pattern.parse
-/
import HeaderBindings.Pattern.Token

namespace HeaderBindings.Pattern

/-- Named runs of sibling patterns, the latest definition of a name first. -/
abbrev Fragments := List (String × List Pattern)

/-- A pattern whose closing parenthesis has not come yet: its head, and the siblings before it. -/
structure Unclosed where
  head : Head
  before : List Pattern
deriving Repr

/-- Read tokens after some siblings inside the unclosed patterns, innermost first. A word right after
an opening parenthesis is the head, unless it begins with an at sign; any other word must refer to a
fragment, whose patterns become siblings. -/
def readSequence (fragments : Fragments) :
    List Pattern → List Unclosed → List Token → Except PatternFault (List Pattern)
  | siblings, [], [] => .ok siblings
  | _, _ :: _, [] => .error .unexpectedEnd
  | _, [], .closing :: _ => .error .strayClosing
  | siblings, unclosed :: outer, .closing :: rest =>
      if endsOpen siblings then .error (.danglingAlternative unclosed.head.name)
      else readSequence fragments (unclosed.before ++ [node unclosed.head siblings]) outer rest
  | siblings, outer, .opening :: .word word :: rest =>
      if word.head? == some '@' then
        readSequence fragments [] (⟨Head.any, siblings⟩ :: outer) (.word word :: rest)
      else match readHead? word with
        | some head => readSequence fragments [] (⟨head, siblings⟩ :: outer) rest
        | none => .error (.invalidHead (String.ofList word))
  | siblings, outer, .opening :: rest =>
      readSequence fragments [] (⟨Head.any, siblings⟩ :: outer) rest
  | siblings, outer, .word word :: rest =>
      match fragmentName? word with
      | none => .error (.unexpectedToken (String.ofList word))
      | some name =>
          match fragments.lookup (String.ofList name) with
          | some patterns => readSequence fragments (siblings ++ patterns) outer rest
          | none => .error (.unknownFragment (String.ofList name))

/-- Read a run of sibling patterns. The text must be ASCII. -/
def parseFragment (text : String) (fragments : Fragments) : Except PatternError (List Pattern) :=
  match text.toList.find? (·.toNat ≥ 128) with
  | some character => .error ⟨.nonAscii character, text⟩
  | none => (readSequence fragments [] [] (tokens text.toList)).mapError (⟨·, text⟩)

/-- Read exactly one pattern. -/
def parse (text : String) (fragments : Fragments) : Except PatternError Pattern :=
  match parseFragment text fragments with
  | .error error => .error error
  | .ok [pattern] => .ok pattern
  | .ok patterns => .error ⟨.wrongCount patterns.length, text⟩

/-- Fragments with one more definition, which may refer to those before it. -/
def Fragments.define (fragments : Fragments) (name text : String) : Except PatternError Fragments :=
  (parseFragment text fragments).map fun patterns => (name, patterns) :: fragments

end HeaderBindings.Pattern
