/-
Module: HeaderBindings.Matching.Matcher
Purpose: Compiled patterns: each child list is one regular expression over codes of kinds.
Main exports: Pattern.regex?, Matcher, Pattern.compile
-/
import HeaderBindings.Matching.Alphabet
import HeaderBindings.Matching.Regex
import HeaderBindings.Pattern.Printer

namespace HeaderBindings

namespace Pattern

/-- The group of a child pattern. -/
def group (alphabet : Alphabet) (child : Pattern) : Group :=
  let codes := if child.head.kinds.isEmpty then CodeClass.any
    else .oneOf (alphabet.encode child.head.kinds)
  ⟨codes, child.head.quantifier⟩

/-- The items of child patterns after a run of alternatives: a run of alternatives and the child
after it are one item, and every other child is one. There are none if alternatives end the list. -/
def itemsAfter? (alphabet : Alphabet) : List Group → List Pattern → Option Regex
  | [], [] => some []
  | _ :: _, [] => none
  | run, child :: rest =>
      if child.head.quantifier == .alternative then
        itemsAfter? alphabet (run ++ [child.group alphabet]) rest
      else (itemsAfter? alphabet [] rest).map ((run ++ [child.group alphabet]) :: ·)

/-- The regular expression of child patterns. -/
def regex? (alphabet : Alphabet) (children : List Pattern) : Option Regex :=
  itemsAfter? alphabet [] children

end Pattern

/-- A compiled pattern: the pattern, the regular expression of its children with one group for each
of them, and the compiled children. -/
inductive Matcher where
  | node (pattern : Pattern) (regex : Regex) (children : List Matcher)
deriving Repr

namespace Matcher

/-- The pattern that was compiled. -/
def pattern : Matcher → Pattern
  | node pattern _ _ => pattern

/-- The regular expression of the children. -/
def regex : Matcher → Regex
  | node _ regex _ => regex

/-- The compiled children. -/
def children : Matcher → List Matcher
  | node _ _ children => children

mutual

/-- A compiled pattern and all those below it, each before those below it. -/
def descendants : Matcher → List Matcher
  | node pattern regex children => node pattern regex children :: descendantsOfList children

/-- The descendants of compiled patterns in order. -/
def descendantsOfList : List Matcher → List Matcher
  | [] => []
  | first :: rest => first.descendants ++ descendantsOfList rest

end

end Matcher

namespace Pattern

/-- The alphabet with the kinds of some patterns. -/
def addKinds (alphabet : Alphabet) (patterns : List Pattern) : Alphabet :=
  patterns.foldl (fun alphabet pattern => alphabet.addAll pattern.head.kinds) alphabet

mutual

/-- Compile a pattern and all patterns below it. Kinds are added to the alphabet in the order in
which patterns name them, each pattern before its children and all children before those below
them; they stay in it when the compilation fails. -/
def compile (alphabet : Alphabet) : Pattern → Except PatternError Matcher × Alphabet
  | node head children =>
      let own := alphabet.addAll head.kinds
      let extended := addKinds own children
      match regex? extended children with
      | none =>
          (.error ⟨.danglingAlternative head.name, (node head children).render 0⟩, extended)
      | some regex =>
          match compileList extended children with
          | (.ok matchers, final) => (.ok (.node (node head children) regex matchers), final)
          | (.error error, final) => (.error error, final)

/-- Compile patterns one after another, up to the first that fails. -/
def compileList (alphabet : Alphabet) : List Pattern → Except PatternError (List Matcher) × Alphabet
  | [] => (.ok [], alphabet)
  | first :: rest =>
      match compile alphabet first with
      | (.error error, extended) => (.error error, extended)
      | (.ok matcher, extended) =>
          match compileList extended rest with
          | (.error error, final) => (.error error, final)
          | (.ok matchers, final) => (.ok (matcher :: matchers), final)

end

end Pattern

end HeaderBindings
