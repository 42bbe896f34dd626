/-
Module: HeaderBindings.Matching.Match
Purpose: Matching a syntax tree against a pattern.
Main exports: Match, Matcher.find?, Pattern.findLazily
-/
import HeaderBindings.Matching.Matcher
import HeaderBindings.Source.Tree

namespace HeaderBindings

/-- A node claimed by a pattern, with the matches of the nodes below it. -/
inductive Match where
  | node (cursor : Cursor) (pattern : Pattern) (children : List Match)
deriving Repr

namespace Match

/-- The node that was claimed. -/
def cursor : Match → Cursor
  | node cursor _ _ => cursor

/-- The pattern that claimed it. -/
def pattern : Match → Pattern
  | node _ pattern _ => pattern

/-- The matches of the nodes below it. -/
def children : Match → List Match
  | node _ _ children => children

mutual

/-- All nodes of a match, each before those below it. -/
def nodes : Match → List Cursor
  | node cursor _ children => cursor :: nodesOfList children

/-- The nodes of matches in order. -/
def nodesOfList : List Match → List Cursor
  | [] => []
  | first :: rest => first.nodes ++ nodesOfList rest

end

end Match

/-- One entry for each code in the spans of groups, taken from the entries of the groups. -/
def assigned {α : Type} : List α → List (Option Span) → List α
  | entry :: entries, some span :: spans =>
      List.replicate span.length entry ++ assigned entries spans
  | _ :: entries, none :: spans => assigned entries spans
  | _, _ => []

/-- The kinds of trees that are not comments. -/
def namedKinds (trees : List Tree) : List String :=
  (trees.filter fun tree => !tree.isComment).map Tree.kind

/-! ### Compiled patterns -/

namespace Matcher

/-- The shape whose children a node's children are matched against: a recursive pattern borrows
those of the shape around it, if there is one. -/
def shape (matcher : Matcher) (enclosing : Option Matcher) : Matcher :=
  if matcher.pattern.head.recursive then enclosing.getD matcher else matcher

mutual

/-- Match a tree below some frames. A shape without children says nothing of the children of the
node; any other shape must share all children that are not comments among its own. -/
def findIn? (alphabet : Alphabet) (above : List Frame) (matcher : Matcher)
    (enclosing : Option Matcher) : Tree → Option Match
  | .node label trees =>
      if !matcher.pattern.head.accepts label.kind then none
      else
        let shape := matcher.shape enclosing
        if shape.children.isEmpty then some (.node ⟨.node label trees, above⟩ matcher.pattern [])
        else match shape.regex.spans? (alphabet.encode (namedKinds trees)) with
          | none => none
          | some spans =>
              (findAll? alphabet (.node label trees) above shape (assigned shape.children spans) 0
                trees).map (.node ⟨.node label trees, above⟩ matcher.pattern)

/-- Match sibling trees, the first of which has an index below a parent, each against the next of
some compiled patterns; comments are passed over. -/
def findAll? (alphabet : Alphabet) (parent : Tree) (above : List Frame) (shape : Matcher) :
    List Matcher → Nat → List Tree → Option (List Match)
  | _, _, [] => some []
  | matchers, index, tree :: rest =>
      if tree.isComment then findAll? alphabet parent above shape matchers (index + 1) rest
      else match matchers with
        | [] => none
        | matcher :: others =>
            match findIn? alphabet (⟨parent, index⟩ :: above) matcher (some shape) tree with
            | none => none
            | some first =>
                (findAll? alphabet parent above shape others (index + 1) rest).map (first :: ·)

end

/-- Match a node against a compiled pattern inside an enclosing shape, if there is one. -/
def find? (alphabet : Alphabet) (matcher : Matcher) (enclosing : Option Matcher)
    (cursor : Cursor) : Option Match :=
  findIn? alphabet cursor.above matcher enclosing cursor.focus

end Matcher

/-! ### Patterns compiled on demand -/

namespace Pattern

/-- The shape whose children a node's children are matched against: a recursive pattern borrows
those of the shape around it, if there is one. -/
def shape (pattern : Pattern) (enclosing : Option Pattern) : Pattern :=
  if pattern.head.recursive then enclosing.getD pattern else pattern

mutual

/-- Match a tree below some frames; every shape is compiled when a node is matched against its
children, and the alphabet grows on the way. -/
def findLazilyIn (alphabet : Alphabet) (above : List Frame) (pattern : Pattern)
    (enclosing : Option Pattern) : Tree → Except PatternError (Option Match × Alphabet)
  | .node label trees =>
      if !pattern.head.accepts label.kind then .ok (none, alphabet)
      else
        let shape := pattern.shape enclosing
        if shape.children.isEmpty then
          .ok (some (.node ⟨.node label trees, above⟩ pattern []), alphabet)
        else match shape.compile alphabet with
          | (.error error, _) => .error error
          | (.ok matcher, extended) =>
              match matcher.regex.spans? (extended.encode (namedKinds trees)) with
              | none => .ok (none, extended)
              | some spans =>
                  match findAllLazily extended (.node label trees) above shape
                      (assigned shape.children spans) 0 trees with
                  | .error error => .error error
                  | .ok (matches?, final) =>
                      .ok (matches?.map (.node ⟨.node label trees, above⟩ pattern), final)

/-- Match sibling trees, the first of which has an index below a parent, each against the next of
some patterns; comments are passed over. -/
def findAllLazily (alphabet : Alphabet) (parent : Tree) (above : List Frame) (shape : Pattern) :
    List Pattern → Nat → List Tree → Except PatternError (Option (List Match) × Alphabet)
  | _, _, [] => .ok (some [], alphabet)
  | patterns, index, tree :: rest =>
      if tree.isComment then findAllLazily alphabet parent above shape patterns (index + 1) rest
      else match patterns with
        | [] => .ok (none, alphabet)
        | pattern :: others =>
            match findLazilyIn alphabet (⟨parent, index⟩ :: above) pattern (some shape) tree with
            | .error error => .error error
            | .ok (none, extended) => .ok (none, extended)
            | .ok (some first, extended) =>
                match findAllLazily extended parent above shape others (index + 1) rest with
                | .error error => .error error
                | .ok (matches?, final) => .ok (matches?.map (first :: ·), final)

end

/-- Match a node against a pattern inside an enclosing shape, if there is one; shapes are compiled
on demand. -/
def findLazily (alphabet : Alphabet) (pattern : Pattern) (enclosing : Option Pattern)
    (cursor : Cursor) : Except PatternError (Option Match × Alphabet) :=
  findLazilyIn alphabet cursor.above pattern enclosing cursor.focus

end Pattern

end HeaderBindings
