/-
Module: HeaderBindings.Binding.Record
Purpose: Actions for structs and unions.
Main exports: readFields, declareRecord, declareTypedefRecord
-/
import HeaderBindings.Binding.Run

namespace HeaderBindings

open Spelling

/-- Kinds of captures that follow a field as lengths of an array. -/
def arrayLengthKinds : List String := ["identifier", "number_literal"]

/-- Whether a capture is a length of an array. -/
def Capture.isArrayLength (capture : Capture) : Bool :=
  arrayLengthKinds.contains capture.kind

/-- Whether a capture is the width of a bit field. -/
def Capture.isBitWidth (capture : Capture) : Bool :=
  capture.kind == "bitfield_clause"

/-- The text of a length of an array. -/
def Capture.arrayLength (capture : Capture) : String :=
  if capture.kind == "number_literal" then (literal? capture.text).getD capture.text
  else bindingName capture.text

/-- The text of the width of a bit field. -/
def Capture.bitWidth (capture : Capture) : String :=
  let width := String.ofList (Text.strip (capture.text.toList.dropWhile (· == ':')))
  (literal? width).getD (expression width)

/-- The lengths of an array type, innermost first; none for what is no array. -/
def arraySuffix (lengths : List Capture) : Option String :=
  if lengths.isEmpty then none
  else
    let text := String.intercalate " * " (lengths.map Capture.arrayLength).reverse
    if text.isEmpty then none else some text

/-- The width at the start of captures, if there is one, and the captures after it. -/
def takeBitWidth : List Capture → Option String × List Capture
  | [] => (none, [])
  | first :: rest => if first.isBitWidth then (some first.bitWidth, rest) else (none, first :: rest)

theorem length_takeBitWidth_le (captures : List Capture) :
    (takeBitWidth captures).2.length ≤ captures.length := by
  cases captures with
  | nil => exact Nat.le_refl _
  | cons first rest =>
      simp only [takeBitWidth]
      split <;> simp

/-- The captures after a field's name and lengths of an array: its width and what follows. -/
def fieldTail (captures : List Capture) : Option String × List Capture :=
  takeBitWidth (captures.dropWhile Capture.isArrayLength)

theorem length_fieldTail_le (captures : List Capture) :
    (fieldTail captures).2.length ≤ captures.length :=
  Nat.le_trans (length_takeBitWidth_le _) (List.dropWhile_sublist _).length_le

/-- The fields spelled by captures, after some fields. A type is followed by a name with the lengths
of an array and a width, or by the width of a field without name. -/
def readFields (before : List Field) (captures : List Capture) : Run (List Field) :=
  match captures with
  | type :: next :: rest => do
      let target ← Run.target type.text
      if next.isBitWidth then
        let field : Field := ⟨"_pad" ++ toString before.length, target, none, some next.bitWidth⟩
        readFields (before ++ [field]) rest
      else
        let field : Field :=
          ⟨bindingName next.text, target, arraySuffix (rest.takeWhile Capture.isArrayLength),
            (fieldTail rest).1⟩
        readFields (before ++ [field]) (fieldTail rest).2
  | _ => pure before
termination_by captures.length
decreasing_by
  · simp only [List.length_cons]
    omega
  · have := length_fieldTail_le rest
    simp only [List.length_cons]
    omega

/-- Declare a record with the fields that captures spell. -/
def emitRecord (name spelling : String) (isUnion : Bool) (captures : List Capture) : Run Unit := do
  if name.isEmpty then pure ()
  else if ← Run.declare .types name then
    let header := (← get).currentHeader
    let fields ← readFields [] captures
    Run.emit .types (.record ⟨name, spelling, header, isUnion, fields⟩)

/-- Whether a specifier is a union. -/
def Tree.isUnion (tree : Tree) : Bool := tree.kind == "union_specifier"

/-- Declare a struct or a union with a body. One without tag gets a generated name, unless a type
definition names it. -/
def declareRecord (cursor : Cursor) (captures : List Capture) : Run Unit := do
  let isUnion := cursor.focus.isUnion
  if cursor.focus.hasName then
    let tag ← Run.capture captures 0
    emitRecord (bindingName tag.text) ((if isUnion then "union " else "struct ") ++ tag.text)
      isUnion (captures.drop 1)
  else if cursor.underTypedef then pure ()
  else
    let stem := if isUnion then "AnonUnion" else "AnonStruct"
    let name ← modifyGet fun registry => registry.uniqueName .types stem (some cursor.spanKey)
    emitRecord name "" isUnion captures

/-- Declare a struct or a union under the name that a type definition gives it; the last capture is
that name. -/
def declareTypedefRecord (cursor : Cursor) (captures : List Capture) : Run Unit :=
  match cursor.focus.namedOfKind? ["struct_specifier", "union_specifier"], captures.getLast? with
  | some specifier, some last =>
      let start := if specifier.hasName then 1 else 0
      emitRecord (bindingName last.text) last.text specifier.isUnion
        (captures.dropLast.drop start)
  | _, _ => pure ()

end HeaderBindings
