/-
Module: HeaderBindings.Source.Document
Purpose: A header's bytes together with their syntax tree.
Main exports: Document, Document.textOf, Document.lineOf
-/
import HeaderBindings.Source.Tree
import HeaderBindings.Text.Utf8

namespace HeaderBindings

/-- The bytes of a header, their syntax tree, and whether parts of them could not be parsed. -/
structure Document where
  bytes : List UInt8
  tree : Tree
  hasError : Bool

namespace Document

/-- The text of a node: the bytes it spans, without those that are no text. -/
def textOf (bytes : List UInt8) (cursor : Cursor) : String :=
  let label := cursor.focus.label
  Text.decodeDropping ((bytes.take label.stop).drop label.start)

/-- The line on which a node begins, counted from zero. -/
def lineOf (bytes : List UInt8) (cursor : Cursor) : Nat :=
  (bytes.take cursor.focus.label.start).count 10

end Document

end HeaderBindings
