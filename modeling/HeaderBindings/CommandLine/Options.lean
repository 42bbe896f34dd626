/-
Module: HeaderBindings.CommandLine.Options
Purpose: The options of the command, and what their values mean.
Main exports: OptionName, Transport, Options, Refusal, Options.read
-/
import HeaderBindings.CommandLine.Arguments
import HeaderBindings.Mode
import HeaderBindings.Number.IntegerText

namespace HeaderBindings

/-- The options of the command. -/
inductive OptionName where
  | help
  | generate
  | output
  | library
  | mode
  | includeDirectory
  | printGrammar
  | printSettings
  | verbose
  | transport
  | host
  | portNumber
  | path
deriving Repr, DecidableEq

/-- How the server talks to its clients. -/
inductive Transport where
  | stdio
  | http
  | sse
deriving Repr, DecidableEq

/-- The transport with a name. -/
def Transport.ofName? : String → Option Transport
  | "stdio" => some stdio
  | "http" => some http
  | "sse" => some sse
  | _ => none

/-- What a command line asks for: headers to generate a module from and a file to write it to; the
library that the module loads, the language of headers whose names do not tell, directories to look
for headers in; listings; and how the server is reached. A directory, a host, a port number or a path
may be asked for without a value. -/
structure Options where
  headers : List String
  output : String
  library : String
  mode : Option Mode
  includeDirectories : List (Option String)
  printGrammar : Bool
  printSettings : Bool
  verbose : Bool
  transport : Transport
  host : Option String
  portNumber : Option Int
  path : Option String
deriving Repr, DecidableEq

/-- Why a command line asks for nothing: it asks for help, or it makes no sense. -/
inductive Refusal where
  | help
  | misuse
deriving Repr, DecidableEq

namespace Options

/-- What is asked for without arguments. -/
def default : Options where
  headers := []
  output := ""
  library := ""
  mode := none
  includeDirectories := []
  printGrammar := false
  printSettings := false
  verbose := false
  transport := .stdio
  host := some "127.0.0.1"
  portNumber := some 8000
  path := some "/mcp"

/-- How options are spelled. -/
def spellings : List (String × OptionName) :=
  [("-h", .help), ("--help", .help), ("--generate", .generate), ("--output", .output),
   ("-o", .output), ("--dynlib", .library), ("--mode", .mode),
   ("--include-dir", .includeDirectory), ("-I", .includeDirectory),
   ("--print-grammar", .printGrammar), ("--print-config", .printSettings),
   ("--verbose", .verbose), ("-v", .verbose), ("--transport", .transport),
   ("--mcp-host", .host), ("--mcp-port", .portNumber), ("--mcp-path", .path)]

/-- How many values an option takes. -/
def arity : OptionName → Arity
  | .help | .printGrammar | .printSettings | .verbose => .noValue
  | .generate => .someValues
  | .output | .library | .mode | .includeDirectory | .transport | .host | .portNumber | .path =>
      .oneValue

/-- The options of the command. -/
def table : OptionTable OptionName := ⟨spellings, arity⟩

/-- What a single value makes of an option. -/
def setValue (options : Options) (name : OptionName) (value : String) : Except Refusal Options :=
  match name with
  | .output => .ok { options with output := value }
  | .library => .ok { options with library := value }
  | .includeDirectory =>
      .ok { options with includeDirectories := options.includeDirectories ++ [some value] }
  | .host => .ok { options with host := some value }
  | .path => .ok { options with path := some value }
  | .mode => match Mode.ofName? value with
    | some mode => .ok { options with mode := some mode }
    | none => .error .misuse
  | .transport => match Transport.ofName? value with
    | some transport => .ok { options with transport }
    | none => .error .misuse
  | .portNumber => match Number.readInteger 10 value.toList with
    | some portNumber => .ok { options with portNumber := some portNumber }
    | none => .error .misuse
  | .help | .generate | .printGrammar | .printSettings | .verbose => .error .misuse

/-- What an option without its value makes of the options. It takes back what was given before; a
transport without a name is that of server-sent events. -/
def clearValue (options : Options) (name : OptionName) : Options :=
  match name with
  | .output => { options with output := "" }
  | .library => { options with library := "" }
  | .mode => { options with mode := none }
  | .includeDirectory =>
      { options with includeDirectories := options.includeDirectories ++ [none] }
  | .transport => { options with transport := .sse }
  | .host => { options with host := none }
  | .portNumber => { options with portNumber := none }
  | .path => { options with path := none }
  | .help | .generate | .printGrammar | .printSettings | .verbose => options

/-- The options with one more given. The last one given counts, but every include directory does. -/
def set (options : Options) (given : Given OptionName) : Except Refusal Options :=
  match given.name, given.values with
  | .help, _ => .error .help
  | .printGrammar, _ => .ok { options with printGrammar := true }
  | .printSettings, _ => .ok { options with printSettings := true }
  | .verbose, _ => .ok { options with verbose := true }
  | .generate, headers => .ok { options with headers }
  | name, [] => .ok (options.clearValue name)
  | name, [value] => options.setValue name value
  | _, _ => .error .misuse

/-- What a command line asks for. Help that is asked for before anything goes wrong is given. -/
def read (arguments : List String) : Except Refusal Options :=
  let (given, sensible) := table.read arguments
  match given.foldlM set default with
  | .error refusal => .error refusal
  | .ok options => if sensible then .ok options else .error .misuse

end Options

end HeaderBindings
