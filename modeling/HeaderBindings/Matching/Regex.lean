/-
Module: HeaderBindings.Matching.Regex
Purpose: The regular expressions that cut a list of codes among child patterns.
Main exports: CodeClass, Group, Item, Regex, Regex.source, Regex.spans?
-/
import HeaderBindings.Pattern.Basic

namespace HeaderBindings

/-- A class of codes: every code, or some. -/
inductive CodeClass where
  | any
  | oneOf (codes : List Nat)
deriving Repr, DecidableEq

namespace CodeClass

/-- Whether a class has a code. -/
def has : CodeClass → Nat → Bool
  | any, _ => true
  | oneOf codes, code => codes.contains code

/-- The written form of a class. -/
def source : CodeClass → List Char
  | any => ['.']
  | oneOf codes => '[' :: codes.map Char.ofNat ++ [']']

end CodeClass

/-- A group: a run of codes of one class, as long as a quantifier allows. -/
structure Group where
  codes : CodeClass
  quantifier : Quantifier
deriving Repr, DecidableEq

namespace Group

/-- The mark of a group's quantifier; an alternative stands for exactly one code. -/
def mark (group : Group) : List Char :=
  if group.quantifier == .alternative then [] else group.quantifier.mark

/-- The written form of a group. -/
def source (group : Group) : List Char :=
  '(' :: group.codes.source ++ group.mark ++ [')']

/-- The lengths from a number down to zero. -/
def downToZero : Nat → List Nat
  | 0 => [0]
  | n + 1 => (n + 1) :: downToZero n

/-- The lengths from a number down to one. -/
def downToOne : Nat → List Nat
  | 0 => []
  | n + 1 => (n + 1) :: downToOne n

/-- How many leading codes a group may take, longest first. -/
def lengths (group : Group) (codes : List Nat) : List Nat :=
  let run := (codes.takeWhile group.codes.has).length
  match group.quantifier with
  | .one | .alternative => downToOne (min 1 run)
  | .oneOrMore => downToOne run
  | .zeroOrMore => downToZero run
  | .zeroOrOne => downToZero (min 1 run)

end Group

/-- Groups of which exactly one takes part in a match. -/
abbrev Item := List Group

/-- Items that match one after another. -/
abbrev Regex := List Item

/-- Where a group matched: the indices of its first code and of the code after its last one. -/
structure Span where
  start : Nat
  stop : Nat
deriving Repr, DecidableEq

namespace Span

/-- The number of codes in a span. -/
def length (span : Span) : Nat := span.stop - span.start

end Span

namespace Regex

/-- The written form of an item. -/
def itemSource : Item → List Char
  | [group] => group.source
  | groups => "(?:".toList ++ List.intercalate ['|'] (groups.map Group.source) ++ [')']

/-- The written form of a regular expression. -/
def source (regex : Regex) : String :=
  String.ofList (regex.flatMap itemSource)

/-- The spans of all groups when items match codes from a position to their end. Items are gone
through from left to right; of each the earliest group is preferred, and of a group the greatest
length, with which the items after it still match. -/
def spansFrom? : Regex → Nat → List Nat → Option (List (Option Span))
  | [], _, [] => some []
  | [], _, _ :: _ => none
  | item :: rest, position, codes =>
      item.zipIdx.findSome? fun (group, index) =>
        (group.lengths codes).findSome? fun length =>
          (spansFrom? rest (position + length) (codes.drop length)).map fun spans =>
            List.replicate index none ++ some ⟨position, position + length⟩
              :: List.replicate (item.length - 1 - index) none ++ spans

/-- The spans of all groups when a regular expression matches codes as a whole. -/
def spans? (regex : Regex) (codes : List Nat) : Option (List (Option Span)) :=
  spansFrom? regex 0 codes

end Regex

end HeaderBindings
