/-
Module: HeaderBindings.CommandLine.Command
Purpose: What the command does: it lists settings or the grammar, generates a module, or starts a
  server.
Main exports: Launch, Outcome, CommandFault, Command.run
-/
import HeaderBindings.CommandLine.Options
import HeaderBindings.Text.Line
import HeaderBindings.Workspace

namespace HeaderBindings

/-- A tool of the server: its name and what it is for. -/
structure Tool where
  name : String
  purpose : String
deriving Repr, DecidableEq

/-- How a server is reached. A host, a port number or a path may be left out. -/
inductive Endpoint where
  | stdio
  | http (host : Option String) (portNumber : Option Int) (path : Option String)
  | sse (host : Option String) (portNumber : Option Int)
deriving Repr, DecidableEq

/-- A server to start: its tools, and how it is reached. -/
structure Launch where
  tools : List Tool
  endpoint : Endpoint
deriving Repr, DecidableEq

/-- What a command leaves behind: what it prints, its reports, its warnings, the files, and a server
to start. A command that is not asked to exit has no exit code. -/
structure Outcome where
  exitCode : Option Nat
  printed : String
  reports : List String
  warnings : List String
  files : FileTree
  launch : Option Launch

/-- Why a command breaks off. -/
inductive CommandFault where
  | zeroCharacter
  | unnamedDirectory (index : Nat)
  | settings (fault : SettingsFault)
  | header (fault : HeaderFault)
  | file (fault : FileFault)
deriving Repr, DecidableEq

/-- The report of a fault. -/
def CommandFault.message : CommandFault → String
  | zeroCharacter => FileFault.zeroCharacter.message
  | unnamedDirectory index =>
      "sequence item " ++ toString index ++ ": expected str instance, list found"
  | settings fault => fault.message
  | header fault => fault.message
  | file fault => fault.message

namespace Command

/-- The mark of the command's reports. -/
def reportMark : String := "[treebind]"

/-- A report of the command. -/
def report (text : String) : String := reportMark ++ " " ++ text

/-- The lines of the reports that bear the mark. A name with line breaks in it makes more than one line
of a report. -/
def reportLines (outcome : Outcome) : List String :=
  (outcome.reports.flatMap fun report => (Text.lines report.toList).map String.ofList).filter
    (·.startsWith reportMark)

/-- The outcome that prints a text and changes nothing. -/
def printing (files : FileTree) (printed : String) : Outcome :=
  ⟨none, printed, [], [], files, none⟩

/-- The include directories of options, each of which must have a name. -/
def directoryNames : Nat → List (Option String) → Except CommandFault (List String)
  | _, [] => .ok []
  | index, none :: _ => .error (.unnamedDirectory index)
  | index, some name :: rest => (directoryNames (index + 1) rest).map (name :: ·)

/-- A text that a variable of the environment is set to; the character zero is in no such text. -/
def variableText (text : String) : Except CommandFault String :=
  if text.toList.contains '\x00' then .error .zeroCharacter else .ok text

/-- The environment as options change it. -/
def override (environment : Environment) (options : Options) : Except CommandFault Environment := do
  let library ← variableText options.library
  let directories ← directoryNames 0 options.includeDirectories
  let directoryList ← variableText (String.intercalate ":" directories)
  return {
    mode := (options.mode.map Mode.name).or environment.mode
    includeDirectories :=
      if directories.isEmpty then environment.includeDirectories else some directoryList
    library := if library.isEmpty then environment.library else some library
    cacheDirectory := environment.cacheDirectory
    fetchTimeout := environment.fetchTimeout
    userCache := environment.userCache
    homes := environment.homes }

/-- Texts as a list: in quotes, with commas between them, in brackets. -/
def quotedList (texts : List String) : String :=
  "[" ++ String.intercalate ", " (texts.map Text.quote) ++ "]"

/-- The listing of settings. -/
def settingsText (settings : Settings) : String :=
  String.join <| List.map (· ++ "\n")
    [report "Effective config:",
      "  MODE: " ++ settings.mode.name,
      "  INCLUDE_DIRS: " ++ quotedList settings.includeDirectories,
      "  DYNLIB: " ++ settings.library.getD "None",
      "  CACHE_DIR: " ++ settings.cacheDirectory,
      "  FETCH_TIMEOUT: " ++ Number.writeDecimal settings.fetchTimeout]

/-- The report on a module that was written to a file. -/
def writtenReport (output : String) (registry : Registry) : String :=
  let counts := Category.all.map fun category =>
    category.label ++ "=" ++ toString (registry.counts.get category)
  report ("Wrote " ++ output ++ " (" ++ String.intercalate ", " counts ++ ")")

/-- Print a module, or write it to a file if one is named. -/
def deliver (workspace : Workspace) (output : String) (progress : Progress) :
    Except CommandFault Outcome :=
  let text := workspace.moduleText "" progress.registry
  if output.isEmpty then
    .ok ⟨some 0, text, [], progress.warnings, workspace.files, none⟩
  else match workspace.files.apply (.write (Path.ofString output) text.toUTF8.toList) with
    | (.error fault, _) => .error (.file fault)
    | (.ok _, files) => .ok ⟨some 0, "", [writtenReport output progress.registry], progress.warnings,
        files, none⟩

/-- Generate a module from headers. A header that is not found is reported. -/
def generate (workspace : Workspace) (options : Options) : Except CommandFault Outcome :=
  match Workspace.carryOut (workspace.takeHeaders options.headers) with
  | (.ok _, progress) => deliver workspace options.output progress
  | (.error (.missing header), progress) =>
      .ok ⟨some 1, "", [report (HeaderFault.missing header).message], progress.warnings,
        workspace.files, none⟩
  | (.error fault, _) => .error (.header fault)

/-- The tools of the server. -/
def tools : List Tool :=
  [⟨"generate_bindings", "Generate a ctypes module for a C/C++ header"⟩,
   ⟨"generate_bindings_for_headers", "Generate one ctypes module for several headers"⟩,
   ⟨"inspect_captures", "Show grammar matches and captures for C/C++ source"⟩,
   ⟨"describe_grammar", "List the registered grammar patterns"⟩,
   ⟨"fetch_header", "Download a header into the local cache"⟩]

/-- How the server is reached. -/
def endpoint (options : Options) : Endpoint :=
  match options.transport with
  | .stdio => .stdio
  | .http => .http options.host options.portNumber options.path
  | .sse => .sse options.host options.portNumber

/-- Start the server. -/
def serve (files : FileTree) (options : Options) : Outcome :=
  ⟨none, "", [report ("Registered " ++ toString tools.length ++ " tools.")], [], files,
    some ⟨tools, endpoint options⟩⟩

/-- Do what options ask for: of several things the listing of settings first, then that of the grammar,
then a module, and the server if nothing else is asked for. -/
def carryOut (environment : Environment) (files : FileTree) (parse : Mode → List UInt8 → Document)
    (options : Options) : Except CommandFault Outcome := do
  let environment ← override environment options
  let settings := (Settings.ofEnvironment environment).mapError CommandFault.settings
  if options.printSettings then
    return printing files (settingsText (← settings))
  else if options.printGrammar then
    return printing files (Rules.table.describe ++ "\n")
  else if options.headers.isEmpty then return serve files options
  else generate ⟨← settings, environment.homes, files, parse⟩ options

/-- Carry out a command line. One that makes no sense ends with exit code 2. -/
def run (environment : Environment) (files : FileTree) (parse : Mode → List UInt8 → Document)
    (arguments : List String) : Except CommandFault Outcome :=
  match Options.read arguments with
  | .error .help => .ok { printing files "" with exitCode := some 0 }
  | .error .misuse => .ok { printing files "" with exitCode := some 2 }
  | .ok options => carryOut environment files parse options

end Command

end HeaderBindings
