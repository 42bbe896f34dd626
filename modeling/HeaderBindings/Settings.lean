/-
Module: HeaderBindings.Settings
Purpose: Settings, as the environment gives them.
Main exports: Environment, Settings, SettingsFault, Settings.ofEnvironment, Settings.modeFor,
  Settings.addIncludeDirectory
-/
import HeaderBindings.Files.Path
import HeaderBindings.Mode
import HeaderBindings.Number.DecimalText
import HeaderBindings.Text.Quoted

namespace HeaderBindings

open Text

/-- What matters of the environment: some variables, and where the homes of users are. -/
structure Environment where
  mode : Option String
  includeDirectories : Option String
  library : Option String
  cacheDirectory : Option String
  fetchTimeout : Option String
  userCache : Option String
  homes : Homes

/-- The settings of a run: the language of headers whose names do not tell, where headers are looked
for, the library that modules load, where downloads are kept, and how many seconds one may take. -/
structure Settings where
  mode : Mode
  includeDirectories : List String
  library : Option String
  cacheDirectory : String
  fetchTimeout : Number.Binary64
deriving Repr, DecidableEq

/-- Why the environment gives no settings. -/
inductive SettingsFault where
  | home (fault : HomeFault)
  | badTimeout (text : String)
deriving Repr, DecidableEq

/-- The report of a fault. -/
def SettingsFault.message : SettingsFault → String
  | home fault => fault.message
  | badTimeout text => "could not convert string to float: " ++ quote text

namespace Settings

/-- The paths in a list with colons between them, without the blank ones. -/
def pathList (text : String) : List Path :=
  ((splitAtMark ':' text.toList).filter fun part => !(strip part).isEmpty).map Path.ofChars

/-- The include directories of a setting. -/
def directoryList (homes : Homes) (text : Option String) : Except SettingsFault (List String) :=
  (pathList (text.getD "")).mapM fun path =>
    ((path.expandHome homes).map Path.text).mapError .home

/-- A variable that is set to more than the empty text. -/
def nonEmpty (text : Option String) : Option String :=
  text.filter fun value => !value.isEmpty

/-- The user's directory for caches: the one that is set, or the usual one in the user's home. -/
def userCache (environment : Environment) : Except SettingsFault Path :=
  match nonEmpty environment.userCache with
  | some directory => .ok (Path.ofString directory)
  | none => ((Path.ofString "~/.cache").expandHome environment.homes).mapError .home

/-- The directory for downloads: the one that is set, or one in the user's directory for caches. -/
def cacheDirectoryOf (environment : Environment) : Except SettingsFault String :=
  match nonEmpty environment.cacheDirectory with
  | some directory => .ok directory
  | none => (userCache environment).map fun directory => (directory.child "treebind").text

/-- The seconds that a download may take. -/
def timeoutOf (text : Option String) : Except SettingsFault Number.Binary64 :=
  let written := text.getD "30"
  match Number.readDecimal written.toList with
  | some seconds => .ok seconds
  | none => .error (.badTimeout written)

/-- The settings that an environment gives. -/
def ofEnvironment (environment : Environment) : Except SettingsFault Settings := do
  let includeDirectories ← directoryList environment.homes environment.includeDirectories
  let cacheDirectory ← cacheDirectoryOf environment
  let fetchTimeout ← timeoutOf environment.fetchTimeout
  return {
    mode := Mode.ofSetting environment.mode
    includeDirectories
    library := nonEmpty environment.library
    cacheDirectory
    fetchTimeout }

/-- The suffixes of files in C++. -/
def cppSuffixes : List String :=
  [".hxx", ".hpp", ".hh", ".H", ".h++", ".cpp", ".cxx", ".cc", ".C", ".c++"]

/-- The suffixes of files in C. -/
def cSuffixes : List String := [".h", ".c"]

/-- The language of a file: the one of its suffix, or the one that is set. -/
def modeFor (settings : Settings) (path : Path) : Mode :=
  if cppSuffixes.contains path.suffix then .cpp
  else if cSuffixes.contains path.suffix then .c
  else settings.mode

/-- Look for headers in one more directory, after the others. -/
def addIncludeDirectory (settings : Settings) (workingDirectory path : Path) : Settings :=
  let directory := (path.resolved workingDirectory).text
  if settings.includeDirectories.contains directory then settings
  else { settings with includeDirectories := settings.includeDirectories ++ [directory] }

end Settings

end HeaderBindings
