/-
Module: HeaderBindings.Generation
Purpose: From a document to declarations: every node that is not a comment is offered to a table, in
  document order.
Main exports: Table.dispatch, Table.process, Finding, Table.findings, Generation.warning?,
  Generation.chooseMode, Generation.generate, Generation.runDefault
-/
import HeaderBindings.Binding.Action
import HeaderBindings.Mode
import HeaderBindings.Table

namespace HeaderBindings

namespace Table

variable {Action : Type} {m : Type → Type} [Monad m]

/-- Offer a node to a table, and carry out the action of the pattern that claims it; answer the
captures that were handed to the action. -/
def dispatch (table : Table Action) (alphabet : Alphabet) (bytes : List UInt8)
    (run : Action → Cursor → List Capture → m Unit) (cursor : Cursor) :
    m (Option (List Capture)) :=
  match table.claim? alphabet cursor with
  | none => pure none
  | some claim => do
      let captures := claim.found.captures bytes
      match claim.entry.action with
      | some action => run action cursor captures
      | none => pure ()
      pure (some captures)

/-- Offer nodes to a table in order, and answer how many were claimed. Nodes of kinds that no
pattern names are passed over. -/
def processNodes (table : Table Action) (alphabet : Alphabet) (bytes : List UInt8)
    (run : Action → Cursor → List Capture → m Unit) : Nat → List Cursor → m Nat
  | claimed, [] => pure claimed
  | claimed, cursor :: rest =>
      if table.hasKind cursor.kind then do
        match ← table.dispatch alphabet bytes run cursor with
        | some _ => processNodes table alphabet bytes run (claimed + 1) rest
        | none => processNodes table alphabet bytes run claimed rest
      else processNodes table alphabet bytes run claimed rest

/-- Offer every node of a document that is not a comment to a table. -/
def process (table : Table Action) (alphabet : Alphabet)
    (run : Action → Cursor → List Capture → m Unit) (document : Document) : m Nat :=
  table.processNodes alphabet document.bytes run 0 (Cursor.root document.tree).walk

end Table

/-- A node that a pattern claims: its kind, the line it begins on, counted from one, the pattern, and
the captures. -/
structure Finding where
  kind : String
  line : Nat
  pattern : Pattern
  captures : List Capture

/-- What a table claims in a document, in document order. -/
def Table.findings {Action : Type} (table : Table Action) (alphabet : Alphabet)
    (document : Document) : List Finding :=
  (Cursor.root document.tree).walk.filterMap fun cursor =>
    (table.claim? alphabet cursor).map fun claim => {
      kind := cursor.kind
      line := Document.lineOf document.bytes cursor + 1
      pattern := claim.entry.matcher.pattern
      captures := claim.found.captures document.bytes }

namespace Generation

/-- The warning about parts of a document that could not be parsed. -/
def warning? (header : String) (document : Document) : Option String :=
  if document.hasError then
    let source := if header.isEmpty then "<source>" else header
    some ("Parse errors in " ++ source ++ "; unparsed regions are skipped")
  else none

/-- The language that a document is read as: the one asked for, or the usual one if none is. -/
def chooseMode (usual : Mode) (asked : String) : Except RunFault Mode :=
  if asked.isEmpty then .ok usual
  else match Mode.ofName? asked with
    | some mode => .ok mode
    | none => .error (.unknownMode asked)

/-- Take a document's declarations into the registry, as declared in a header. -/
def generate {Action : Type} {m : Type → Type} [Monad m] [MonadLiftT Run m]
    (table : Table Action) (alphabet : Alphabet)
    (run : Action → Cursor → List Capture → m Unit) (usual : Mode) (asked header : String)
    (document : Document) : m Nat := do
  monadLift (m := Run) (modify fun registry => registry.beginHeader header)
  let _ ← monadLift (Run.ofExcept id (chooseMode usual asked))
  table.process alphabet run document

/-- Carry out an action of the default grammar for the node that it claims. -/
def runDefault (action : Action) (cursor : Cursor) (captures : List Capture) : Run Unit :=
  action.run (some cursor) captures

end Generation

end HeaderBindings
