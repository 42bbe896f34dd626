/-
Module: HeaderBindings.Binding.Run
Purpose: Steps that change a registry and may fail, and what they have in common.
Main exports: RunFault, Run, Run.resolve, Run.target, Tree.hasName, Cursor.underTypedef
-/
import HeaderBindings.Binding.Registry
import HeaderBindings.Matching.Capture
import HeaderBindings.Spelling.Expression
import HeaderBindings.Spelling.IntegerValue

namespace HeaderBindings

open Spelling

/-- Why a step fails. -/
inductive RunFault where
  | missingCapture
  | missingNode
  | unknownSize (size : UnknownSize)
  | badDigits (digits : BadDigits)
  | numberTooLong
  | unknownMode (text : String)
deriving Repr, DecidableEq

namespace RunFault

/-- The report of a fault. -/
def message : RunFault → String
  | missingCapture => "list index out of range"
  | missingNode => "'NoneType' object has no attribute 'named_children'"
  | unknownSize size => Text.quote size.spelling
  | badDigits digits => digits.message
  | numberTooLong =>
      "Exceeds the limit (4300 digits) for integer string conversion; "
        ++ "use sys.set_int_max_str_digits() to increase the limit"
  | unknownMode text => Text.quote text ++ " is not a valid Mode"

end RunFault

/-- A step that changes a registry and may fail; what it changed before it failed stays changed. -/
abbrev Run := ExceptT RunFault (StateM Registry)

namespace Run

/-- Reserve a name in a category, unless it is; answer whether it was free. -/
def declare (category : Category) (name : String) : Run Bool :=
  modifyGet fun registry => registry.declare category name

/-- Add a declaration at the end of a category. -/
def emit (category : Category) (declaration : Declaration) : Run Unit :=
  modify fun registry => registry.emit category declaration

/-- Note that a declaration uses a type, if there is a name for it. -/
def refer (name : String) : Run Unit :=
  if name.isEmpty then pure () else modify fun registry => registry.refer name

/-- A value whose computation may fail. -/
def ofExcept {ε α : Type} (fault : ε → RunFault) : Except ε α → Run α
  | .ok value => pure value
  | .error error => throw (fault error)

/-- A capture that must be there. -/
def capture (captures : List Capture) (index : Nat) : Run Capture :=
  match captures[index]? with
  | some capture => pure capture
  | none => throw .missingCapture

/-- An integer in decimal. -/
def decimal (n : Int) : Run String :=
  match Number.writeInteger n with
  | some text => pure text
  | none => throw .numberTooLong

/-- The type expression of a C type, whose declared type is noted; none for `void`. -/
def resolve (spelled : String) : Run (Option TypeExpr) := do
  match ← ofExcept .unknownSize (declaredName spelled) with
  | some name => refer name
  | none => pure ()
  ofExcept .unknownSize (typeExpr spelled)

/-- The type expression of a C type, whose declared type is noted. -/
def target (spelled : String) : Run TypeExpr := do
  return (← resolve spelled).getD .noValue

end Run

/-! ### What the source tree says -/

/-- Whether a specifier has a tag. -/
def Tree.hasName (tree : Tree) : Bool :=
  tree.named.any fun child => child.kind == "type_identifier"

/-- The first child of one of some kinds. -/
def Tree.namedOfKind? (tree : Tree) (kinds : List String) : Option Tree :=
  tree.named.find? fun child => kinds.contains child.kind

/-- Whether a node is directly under a type definition. -/
def Cursor.underTypedef (cursor : Cursor) : Bool :=
  match cursor.parent? with
  | some parent => parent.kind == "type_definition"
  | none => false

/-- The bytes that a node spans, as a key. -/
def Cursor.spanKey (cursor : Cursor) : List Int :=
  [(cursor.focus.label.start : Int), (cursor.focus.label.stop : Int)]

end HeaderBindings
