/-
Module: HeaderBindings.Main
Purpose: The command as a program: it takes the environment and the files of the working directory,
  and carries out its command line.
Main exports: main
-/
import HeaderBindings.CommandLine.Command
import HeaderBindings.Source.Listing

namespace HeaderBindings

/-- The lines of a text of the system, cut at a mark; none if it cannot be read. -/
def readTable (name mark : String) : IO (List (List String)) := do
  try
    let text ← IO.FS.readFile name
    return (text.splitOn "\n").map fun row => row.splitOn mark
  catch _ => return []

/-- A field of the first line that has a text in another field. -/
def fieldOf? (table : List (List String)) (key : Nat) (text : String) (field : Nat) : Option String :=
  (table.find? fun row => row[key]? == some text).bind fun row => row[field]?

/-- The homes of users. The list of users has their names first on each line, then their numbers, and
their homes. -/
def readHomes : IO Homes := do
  let users ← readTable "/etc/passwd" ":"
  let own := fieldOf? (← readTable "/proc/self/status" "\t") 0 "Uid:" 1
  return {
    setting := ← IO.getEnv "HOME"
    own := own.bind fun number => fieldOf? users 2 number 5
    ofUser := fun user => fieldOf? users 0 user 5 }

/-- The environment of the program. -/
def readEnvironment : IO Environment := do
  return {
    mode := ← IO.getEnv "TREEBIND_MODE"
    includeDirectories := ← IO.getEnv "TREEBIND_INCLUDE_DIRS"
    library := ← IO.getEnv "TREEBIND_DYNLIB"
    cacheDirectory := ← IO.getEnv "TREEBIND_CACHE_DIR"
    fetchTimeout := ← IO.getEnv "TREEBIND_FETCH_TIMEOUT"
    userCache := ← IO.getEnv "XDG_CACHE_HOME"
    homes := ← readHomes }

/-- The files below a directory, by the names that lead to them from the working directory. -/
partial def readFiles (names : List String) : IO (List (Location × List UInt8)) := do
  let directory := names.foldl (· / ·) (← IO.currentDir)
  let mut files := []
  for entry in ← directory.readDir do
    let inside := names ++ [entry.fileName]
    if ← entry.path.isDir then
      files := files ++ (← readFiles inside)
    else
      let bytes ← IO.FS.readBinFile entry.path
      files := files ++ [(⟨.above 0, inside⟩, bytes.toList)]
  return files

/-- The end of the names of files that list the trees of the files they stand beside. -/
def listingSuffix : String := ".tree"

/-- The documents of the files that have a listing of their tree beside them. -/
def documents (files : List (Location × List UInt8)) : List Document :=
  files.filterMap fun (place, bytes) =>
    let listing := ⟨place.origin, place.names.dropLast
      ++ [place.names.getLast?.getD "" ++ listingSuffix]⟩
    (files.lookup listing).bind fun text => Listing.read? bytes (Text.decodeReplacing text)

/-- The parser that knows the trees of some documents, and no declaration in any other source. -/
def knownTrees (documents : List Document) (_ : Mode) (bytes : List UInt8) : Document :=
  (documents.find? fun document => document.bytes == bytes).getD
    ⟨bytes, .node ⟨"translation_unit", 0, bytes.length, none⟩ [], false⟩

/-- The path to a place. -/
def pathTo (place : Location) : Path :=
  match place.origin with
  | .root => ⟨.root, place.names⟩
  | .above steps => ⟨.workingDirectory, List.replicate steps ".." ++ place.names⟩

/-- Write the files that a command has changed. -/
def writeChanges (before after : FileTree) : IO Unit := do
  for (place, bytes) in after.files do
    if before.bytesAt? place != some bytes then
      IO.FS.writeBinFile (pathTo place).text ⟨bytes.toArray⟩

/-- Carry out the command line. A server is left to the host of the program. -/
def runProgram (arguments : List String) : IO UInt32 := do
  let files ← readFiles []
  let tree : FileTree := ⟨[], files⟩
  match Command.run (← readEnvironment) tree (knownTrees (documents files)) arguments with
  | .error fault =>
      IO.eprintln fault.message
      return 1
  | .ok outcome =>
      for warning in outcome.warnings do
        IO.eprintln warning
      for text in outcome.reports do
        IO.eprintln text
      IO.print outcome.printed
      writeChanges tree outcome.files
      return UInt32.ofNat (outcome.exitCode.getD 0)

end HeaderBindings

/-- Generate bindings as the command line asks for. -/
def main (arguments : List String) : IO UInt32 := HeaderBindings.runProgram arguments
