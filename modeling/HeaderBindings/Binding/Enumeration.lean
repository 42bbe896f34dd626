/-
Module: HeaderBindings.Binding.Enumeration
Purpose: Actions for enumerations.
Main exports: enumerators, readMembers, declareEnumeration, declareTypedefEnumeration
-/
import HeaderBindings.Binding.Run

namespace HeaderBindings

open Spelling

/-- The enumerators in the body of a specifier. -/
def enumerators (specifier : Tree) : List Tree :=
  match specifier.namedOfKind? ["enumerator_list"] with
  | some body => body.named.filter fun child => child.kind == "enumerator"
  | none => []

/-- Whether an enumerator has a value of its own. -/
def Tree.hasValue (enumerator : Tree) : Bool := enumerator.named.length > 1

/-- The value of an enumerator: its text, and its number if that is known. -/
structure EnumeratorValue where
  text : String
  number : Option Int
deriving Repr, DecidableEq

/-- The number of a macro, if it is one. -/
def constantNumber (name : String) : Run (Option Int) := do
  match (← get).constant? name with
  | some constant => Run.ofExcept .badDigits (integerValue constant.value)
  | none => pure none

/-- The value that a name stands for. The number of an earlier enumerator or of a macro is known; a
name that is no constant stands for the number that comes next. -/
def namedValue (known : List (String × Int)) (next : Int) (spelled : String) :
    Run EnumeratorValue := do
  let name := bindingName spelled
  let macroNumber ← constantNumber name
  match (known.lookup name).or macroNumber with
  | some number => return ⟨name, some number⟩
  | none =>
      if (← get).isDeclared .constants name then return ⟨name, none⟩
      else return ⟨← Run.decimal next, none⟩

/-- The value that a capture spells. -/
def explicitValue (known : List (String × Int)) (next : Int) (capture : Capture) :
    Run EnumeratorValue := do
  let number ← Run.ofExcept .badDigits (integerValue capture.text)
  if capture.kind == "identifier" then namedValue known next capture.text
  else match number with
    | none => return ⟨expression capture.text, none⟩
    | some value =>
        if capture.kind == "char_literal" then return ⟨← Run.decimal value, some value⟩
        else return ⟨(literal? capture.text).getD capture.text, some value⟩

/-- The members that enumerators and their captures spell, after some members. A value whose number
is not known counts one further than the number that comes next. Only members whose names were free
as constants are kept. -/
def readMembers (known : List (String × Int)) (next : Int) (before : List Enumerator) :
    List Tree → List Capture → Run (List Enumerator)
  | [], _ => pure before
  | enumerator :: rest, captures => do
      let member := bindingName (← Run.capture captures 0).text
      let value ←
        if enumerator.hasValue then explicitValue known next (← Run.capture captures 1)
        else pure ⟨← Run.decimal next, some next⟩
      let known := match value.number with
        | some number => (member, number) :: known
        | none => known
      let following := (value.number.getD next) + 1
      let kept ← if member.isEmpty then pure false else Run.declare .constants member
      readMembers known following (if kept then before ++ [⟨member, value.text⟩] else before) rest
        (captures.drop (if enumerator.hasValue then 2 else 1))

/-- Declare an enumeration with the members that captures spell. -/
def emitEnumeration (name : String) (specifier : Tree) (captures : List Capture) : Run Unit := do
  if name.isEmpty then pure ()
  else if ← Run.declare .enumerations name then
    let header := (← get).currentHeader
    let members ← readMembers [] 0 [] (enumerators specifier) captures
    Run.emit .enumerations (.enumeration ⟨name, header, members⟩)

/-- Declare an enumeration with a body. One without tag gets a generated name, unless a type
definition names it. -/
def declareEnumeration (cursor : Cursor) (captures : List Capture) : Run Unit := do
  if cursor.focus.hasName then
    let tag ← Run.capture captures 0
    emitEnumeration (bindingName tag.text) cursor.focus (captures.drop 1)
  else if cursor.underTypedef then pure ()
  else
    let name ← modifyGet fun registry =>
      registry.uniqueName .enumerations "AnonEnum" (some cursor.spanKey)
    emitEnumeration name cursor.focus captures

/-- Declare an enumeration under the name that a type definition gives it; the last capture is that
name. -/
def declareTypedefEnumeration (cursor : Cursor) (captures : List Capture) : Run Unit :=
  match cursor.focus.namedOfKind? ["enum_specifier"], captures.getLast? with
  | some specifier, some last =>
      let start := if specifier.hasName then 1 else 0
      emitEnumeration (bindingName last.text) specifier (captures.drop start)
  | _, _ => pure ()

end HeaderBindings
