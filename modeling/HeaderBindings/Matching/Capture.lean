/-
Module: HeaderBindings.Matching.Capture
Purpose: The captures of a match: kinds and texts of its leaves, in order, with the pointers of a
  declarator's name written after the type before it.
Main exports: Capture, Match.captures
-/
import HeaderBindings.Matching.Match
import HeaderBindings.Source.Document
import HeaderBindings.Text.Blank

namespace HeaderBindings

/-- A captured kind and text. -/
structure Capture where
  kind : String
  text : String
deriving Repr, DecidableEq

namespace Capture

/-- Kinds of leaves that are captured. -/
def atoms : List String :=
  ["bitfield_clause", "field_identifier", "identifier", "number_literal", "char_literal",
   "preproc_arg", "primitive_type", "sized_type_specifier", "type_identifier"]

/-- Kinds of expressions that are captured as a whole. -/
def expressions : List String :=
  ["parenthesized_expression", "binary_expression", "unary_expression", "math_expression",
   "bitwise_expression", "shift_expression", "escape_sequence"]

/-- Kinds of names whose pointers belong to the type before them. -/
def declaratorNames : List String := ["identifier", "field_identifier", "type_identifier"]

/-- Kinds that spell a type. -/
def typeNames : List String := ["primitive_type", "sized_type_specifier", "type_identifier"]

/-- Whether nodes of a kind are captured. -/
def isCaptured (kind : String) : Bool :=
  atoms.contains kind || expressions.contains kind

/-- The text of pointers after a type. -/
def stars (depth : Nat) : String :=
  if depth == 0 then "" else String.ofList (' ' :: List.replicate depth '*')

/-- The latest type among captures, latest first, without the pointers after it. -/
def latestType? (latestFirst : List Capture) : Option Capture :=
  (latestFirst.find? fun capture => typeNames.contains capture.kind).map fun capture =>
    { capture with
      text := String.ofList (Text.dropEndWhile (fun c => c == ' ' || c == '*') capture.text.toList) }

/-- Captures, latest first, with the pointers of a name noted: after the latest capture, or, if the
name is a field and the latest capture is no type, after a copy of the latest type. -/
def notePointers (kind : String) (depth : Nat) : List Capture → List Capture
  | [] => []
  | latest :: earlier =>
      if !declaratorNames.contains kind then latest :: earlier
      else
        let base? := if kind == "field_identifier" && !typeNames.contains latest.kind then
          latestType? (latest :: earlier) else none
        match base? with
        | some base => { base with text := base.text ++ stars depth } :: latest :: earlier
        | none => { latest with text := latest.text ++ stars depth } :: earlier

/-- Captures, latest first, with one for a node. -/
def add (bytes : List UInt8) (cursor : Cursor) (latestFirst : List Capture) : List Capture :=
  ⟨cursor.kind, Text.collapsed (Document.textOf bytes cursor)⟩
    :: notePointers cursor.kind cursor.pointerDepth latestFirst

end Capture

namespace Match

mutual

/-- Captures, latest first, with those of a match. Below a captured node nothing is captured. -/
def capturesAfter (bytes : List UInt8) (latestFirst : List Capture) : Match → List Capture
  | node cursor _ children =>
      if Capture.isCaptured cursor.kind then Capture.add bytes cursor latestFirst
      else capturesAfterList bytes latestFirst children

/-- Captures, latest first, with those of matches in order. -/
def capturesAfterList (bytes : List UInt8) (latestFirst : List Capture) : List Match → List Capture
  | [] => latestFirst
  | first :: rest => capturesAfterList bytes (capturesAfter bytes latestFirst first) rest

end

/-- The captures of a match in order. -/
def captures (bytes : List UInt8) (found : Match) : List Capture :=
  (capturesAfter bytes [] found).reverse

end Match

end HeaderBindings
