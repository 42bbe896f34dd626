/-
Module: HeaderBindings.Workspace
Purpose: Headers in files: found by their names, parsed, and taken into one registry, from which a
  module is written.
Main exports: Workspace, Progress, HeaderFault, HeaderRun, Workspace.takeHeaders, Workspace.moduleText,
  Workspace.inspect
-/
import HeaderBindings.Binding.Module
import HeaderBindings.Files.HeaderLookup
import HeaderBindings.Generation
import HeaderBindings.Rules
import HeaderBindings.Settings

namespace HeaderBindings

/-- What headers are taken from: the settings, the homes of users, the files, and the parser. -/
structure Workspace where
  settings : Settings
  homes : Homes
  files : FileTree
  parse : Mode → List UInt8 → Document

/-- How far a run over headers has come: what is declared, the languages of the sources parsed, and
the warnings. -/
structure Progress where
  registry : Registry
  parsed : List Mode
  warnings : List String
deriving Repr, DecidableEq

/-- Nothing is done yet. -/
def Progress.start : Progress := ⟨.empty, [], []⟩

/-- Why a run over headers ends early. -/
inductive HeaderFault where
  | missing (header : String)
  | lookup (fault : LookupFault)
  | run (fault : RunFault)
deriving Repr, DecidableEq

namespace HeaderFault

/-- The report of a fault. -/
def message : HeaderFault → String
  | missing header => "Header not found: " ++ header
  | lookup fault => fault.message
  | run fault => fault.message

end HeaderFault

/-- A run over headers; what it did before a fault stays done. -/
abbrev HeaderRun := ExceptT HeaderFault (StateM Progress)

namespace HeaderRun

/-- A step that only changes the registry, as part of a run over headers. -/
def ofRun {α : Type} (step : Run α) : HeaderRun α :=
  ExceptT.mk do
    let progress ← get
    let (result, registry) := StateT.run (ExceptT.run step) progress.registry
    set { progress with registry }
    return result.mapError .run

instance : MonadLiftT Run HeaderRun := ⟨ofRun⟩

/-- Carry out an action of the default grammar for the node that it claims. -/
def runDefault (action : Action) (cursor : Cursor) (captures : List Capture) : HeaderRun Unit :=
  ofRun (Generation.runDefault action cursor captures)

/-- A value whose computation may fail. -/
def ofExcept {ε α : Type} (fault : ε → HeaderFault) : Except ε α → HeaderRun α
  | .ok value => pure value
  | .error error => throw (fault error)

/-- Note that a source was parsed. -/
def noteParsed (mode : Mode) : HeaderRun Unit :=
  modify fun progress => { progress with parsed := progress.parsed ++ [mode] }

/-- Add a warning, if there is one. -/
def noteWarning (warning : Option String) : HeaderRun Unit :=
  modify fun progress => { progress with warnings := progress.warnings ++ warning.toList }

end HeaderRun

namespace Workspace

/-- The bytes of the file that a header's name stands for, and the path to it. -/
def locate (workspace : Workspace) (header : String) : HeaderRun (Path × List UInt8) := do
  let found ← HeaderRun.ofExcept .lookup <| HeaderLookup.find? workspace.files workspace.homes
    workspace.settings.includeDirectories header
  match found with
  | none => throw (.missing header)
  | some path => return (path, (workspace.files.read? path).getD [])

/-- Parse a source in the language that is asked for, or in the usual one if none is. -/
def parseSource (workspace : Workspace) (asked : String) (bytes : List UInt8) :
    HeaderRun Document := do
  let mode ← HeaderRun.ofExcept .run (Generation.chooseMode workspace.settings.mode asked)
  HeaderRun.noteParsed mode
  return workspace.parse mode bytes

/-- Take a header's declarations into the registry. Its language is the one that is asked for, or that
of its file. -/
def takeHeader (workspace : Workspace) (asked header : String) : HeaderRun Unit := do
  let (path, bytes) ← workspace.locate header
  let asked := if asked.isEmpty then (workspace.settings.modeFor path).name else asked
  let document ← workspace.parseSource asked bytes
  HeaderRun.noteWarning (Generation.warning? header document)
  let _ ← Generation.generate Rules.table Rules.alphabet HeaderRun.runDefault
    workspace.settings.mode asked header document

/-- Take the declarations of headers into one registry, in order. -/
def takeHeaders (workspace : Workspace) : List String → HeaderRun Unit
  | [] => pure ()
  | header :: rest => do
      workspace.takeHeader "" header
      workspace.takeHeaders rest

/-- The module for a registry. It loads the library that is asked for, or the one of the settings. -/
def moduleText (workspace : Workspace) (asked : String) (registry : Registry) : String :=
  Module.render registry (if asked.isEmpty then workspace.settings.library else some asked)

/-- Whether parts of a source could not be parsed, and what the default grammar claims in it. -/
def inspect (workspace : Workspace) (asked : String) (bytes : List UInt8) :
    HeaderRun (Bool × List Finding) := do
  let document ← workspace.parseSource asked bytes
  return (document.hasError, Rules.table.findings Rules.alphabet document)

/-- Carry out a run over headers from the start. -/
def carryOut {α : Type} (run : HeaderRun α) : Except HeaderFault α × Progress :=
  StateT.run (ExceptT.run run) .start

end Workspace

end HeaderBindings
