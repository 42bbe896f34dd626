/-
Module: HeaderBindings.Files.HeaderLookup
Purpose: Which file a header's name stands for: the file itself, a file in an include directory, or
  else the file with the shortest path below the include directories.
Main exports: LookupFault, HeaderLookup.find?
-/
import HeaderBindings.Files.FileTree
import HeaderBindings.Files.Glob

namespace HeaderBindings

/-- Why a header cannot be looked for. -/
inductive LookupFault where
  | home (fault : HomeFault)
  | brokenPattern
  | file (fault : FileFault)
deriving Repr, DecidableEq

/-- The report of a fault. -/
def LookupFault.message : LookupFault → String
  | home fault => fault.message
  | brokenPattern => "Invalid pattern: '**' can only be an entire path component"
  | file fault => fault.message

namespace HeaderLookup

/-- Whether a path comes before another one: shorter paths first, and those of one length in the order
of their texts. -/
def precedes (first second : Path) : Bool :=
  let (left, right) := (first.text, second.text)
  left.length < right.length || (left.length == right.length && left < right)

/-- The first of some paths in the order of `precedes`. -/
def shortest? : List Path → Option Path
  | [] => none
  | path :: rest => some (rest.foldl (fun best next => if precedes next best then next else best) path)

/-- Where a header is in each of some directories, if it is there. -/
def directHits (directories : List Path) (header : Path) : List Path :=
  directories.map fun directory => directory.join header

/-- The first of some paths that leads to a file. -/
def firstFile? (files : FileTree) : List Path → Except FileFault (Option Path)
  | [] => .ok none
  | path :: rest => do
      if ← files.isFile path then return some path
      else firstFile? files rest

/-- Those of some paths that lead to files. -/
def onlyFiles (files : FileTree) : List Path → Except FileFault (List Path)
  | [] => .ok []
  | path :: rest => do
      let isFile ← files.isFile path
      let others ← onlyFiles files rest
      return if isFile then path :: others else others

/-- The files below a directory whose names match a header's. A name without wildcards is looked up,
in the directory itself first, so it must not be too long. -/
def filesNamed (files : FileTree) (name : String) (directory : Path) :
    Except LookupFault (List Path) := do
  if ← (files.isDirectory directory).mapError .file then
    match Glob.ofName? name with
    | none => throw .brokenPattern
    | some glob =>
        if !Glob.hasWildcard name then
          let _ ← (files.isFile (directory.child name)).mapError LookupFault.file
        let named := (files.filesBelow directory).filter fun path => glob.matchesName path.name
        (onlyFiles files named).mapError .file
  else return []

/-- The file below some directories whose name matches a header's. -/
def search (files : FileTree) (directories : List Path) (name : String) :
    Except LookupFault (Option Path) := do
  let found ← directories.mapM (filesNamed files name)
  return shortest? found.flatten

/-- The file that a header's name stands for. A tilde at its beginning stands for a user's home, but not
when it is looked for in the include directories themselves. -/
def find? (files : FileTree) (homes : Homes) (includeDirectories : List String)
    (header : String) : Except LookupFault (Option Path) :=
  let written := Path.ofString header
  let directories := includeDirectories.map Path.ofString
  match written.expandHome homes with
  | .error fault => .error (.home fault)
  | .ok path => do
      match ← (firstFile? files (path :: directHits directories written)).mapError .file with
      | some hit => return some hit
      | none => search files directories path.name

end HeaderLookup

end HeaderBindings
