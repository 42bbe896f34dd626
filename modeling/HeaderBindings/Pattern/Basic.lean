/-
Module: HeaderBindings.Pattern.Basic
Purpose: Tree patterns: which kinds of node a pattern accepts, how many siblings it may claim, and
  which patterns its children are claimed by.
Main exports: Quantifier, Head, Pattern, Pattern.accepts, Pattern.descendants, PatternError
-/
import HeaderBindings.Text.Blank
import HeaderBindings.Text.Quoted

namespace HeaderBindings

/-- How many sibling nodes a child pattern may claim. An alternative claims one node or leaves it to
the sibling pattern after it. -/
inductive Quantifier where
  | one
  | oneOrMore
  | zeroOrMore
  | zeroOrOne
  | alternative
deriving Repr, DecidableEq, Inhabited

namespace Quantifier

/-- The mark of a quantifier. -/
def mark : Quantifier → List Char
  | one => []
  | oneOrMore => ['+']
  | zeroOrMore => ['*']
  | zeroOrOne => ['?']
  | alternative => ['!']

/-- The quantifier with a mark. -/
def ofMark? : List Char → Option Quantifier
  | [] => some one
  | ['+'] => some oneOrMore
  | ['*'] => some zeroOrMore
  | ['?'] => some zeroOrOne
  | ['!'] => some alternative
  | _ => none

theorem ofMark?_mark (q : Quantifier) : ofMark? q.mark = some q := by
  cases q <;> rfl

end Quantifier

/-- What a pattern says of a node itself. No kinds at all mean any kind. A recursive pattern gives
the children of its node to the children of the shape around it. -/
structure Head where
  kinds : List String
  quantifier : Quantifier
  recursive : Bool
deriving Repr, DecidableEq, Inhabited

namespace Head

/-- The head that accepts one node of any kind. -/
def any : Head := ⟨[], .one, false⟩

/-- The kinds named by a text; its bars separate them. -/
def kindsOfName (name : List Char) : List String :=
  if name.isEmpty then [] else (Text.splitAtMark '|' name).map String.ofList

/-- The kinds of a head, with a bar between neighbours. -/
def name (head : Head) : String :=
  String.intercalate "|" head.kinds

/-- The text of a head: a caret if it is recursive, its name and the mark of its quantifier. -/
def text (head : Head) : String :=
  (if head.recursive then "^" else "") ++ head.name ++ String.ofList head.quantifier.mark

/-- Whether a head accepts a kind of node. -/
def accepts (head : Head) (kind : String) : Bool :=
  head.kinds.isEmpty || head.kinds.contains kind

end Head

/-- A pattern: its head, and the patterns of its children. -/
inductive Pattern where
  | node (head : Head) (children : List Pattern)
deriving Repr, Inhabited

namespace Pattern

/-- What a pattern says of a node itself. -/
def head : Pattern → Head
  | node head _ => head

/-- The patterns of the children. -/
def children : Pattern → List Pattern
  | node _ children => children

mutual

/-- Equality of patterns is decided head by head. -/
def decEq : (a b : Pattern) → Decidable (a = b)
  | node head children, node head' children' =>
      match decEqHead : decide (head = head'), decEqList children children' with
      | true, isTrue same => isTrue (by rw [of_decide_eq_true decEqHead, same])
      | false, _ => isFalse (by
          intro equal
          injection equal with heads _
          exact of_decide_eq_false decEqHead heads)
      | _, isFalse different => isFalse (by
          intro equal
          injection equal with _ lists
          exact different lists)

/-- Equality of lists of patterns is decided pattern by pattern. -/
def decEqList : (as bs : List Pattern) → Decidable (as = bs)
  | [], [] => isTrue rfl
  | [], _ :: _ => isFalse (by simp)
  | _ :: _, [] => isFalse (by simp)
  | a :: as, b :: bs =>
      match decEq a b, decEqList as bs with
      | isTrue first, isTrue rest => isTrue (by rw [first, rest])
      | isFalse first, _ => isFalse (by
          intro equal
          injection equal with heads _
          exact first heads)
      | _, isFalse rest => isFalse (by
          intro equal
          injection equal with _ tails
          exact rest tails)

end

instance : DecidableEq Pattern := decEq

mutual

/-- A pattern and all patterns below it, each before those below it. -/
def descendants : Pattern → List Pattern
  | node head children => node head children :: descendantsOfList children

/-- The descendants of patterns in order. -/
def descendantsOfList : List Pattern → List Pattern
  | [] => []
  | first :: rest => first.descendants ++ descendantsOfList rest

end

/-- Whether the last of some sibling patterns is an alternative, with no sibling to share with. -/
def endsOpen (siblings : List Pattern) : Bool :=
  match siblings.getLast? with
  | some last => last.head.quantifier == .alternative
  | none => false

end Pattern

/-- Why a text, a name or a tree is no pattern. -/
inductive PatternFault where
  | nonAscii (character : Char)
  | unexpectedEnd
  | unexpectedToken (token : String)
  | unknownFragment (name : String)
  | invalidHead (token : String)
  | danglingAlternative (name : String)
  | strayClosing
  | wrongCount (count : Nat)
  | invalidName (name : String)
  | unnamedTop
deriving Repr, DecidableEq

namespace PatternFault

/-- The report of a fault. -/
def message : PatternFault → String
  | nonAscii character => "Non-ASCII character " ++ Text.quote (String.ofList [character])
  | unexpectedEnd => "Unbalanced parentheses: unexpected end of pattern"
  | unexpectedToken token => "Unexpected token " ++ Text.quote token
  | unknownFragment name => "Unknown fragment @" ++ name
  | invalidHead token => "Invalid pattern name or quantifier " ++ Text.quote token
  | danglingAlternative name =>
      "Quantifier '!' on the last child of (" ++ name ++ ") has nothing to alternate with"
  | strayClosing => "Unbalanced parentheses: unexpected ')'"
  | wrongCount count => "Expected exactly one pattern, found " ++ toString count
  | invalidName name => "Invalid pattern name " ++ Text.quote name
  | unnamedTop => "Top-level pattern must name a node kind"

end PatternFault

/-- A fault and the text that has it. -/
structure PatternError where
  fault : PatternFault
  text : String
deriving Repr, DecidableEq

/-- The report of an error: the fault, and the text without outer blanks unless there is none. -/
def PatternError.message (error : PatternError) : String :=
  if error.text.isEmpty then error.fault.message
  else error.fault.message ++ " in pattern:\n" ++ Text.stripped error.text

end HeaderBindings
