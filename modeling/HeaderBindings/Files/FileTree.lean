/-
Module: HeaderBindings.Files.FileTree
Purpose: Files by their places, as far as they are known: those below the working directory and those
  below the root.
Main exports: Origin, Location, FileTree, FileFault, FileChange, FileTree.apply, FileTree.locate,
  FileTree.isFile, FileTree.isDirectory, FileTree.read?, FileTree.filesBelow,
  FileChange.makeDirectories, FileChange.write
-/
import HeaderBindings.Files.Path
import HeaderBindings.Text.Quoted

namespace HeaderBindings

/-- A directory that places are told from: the root, or the directory so many steps above the working
directory. -/
inductive Origin where
  | root
  | above (steps : Nat)
deriving Repr, DecidableEq

/-- A place in the file system: the names that lead to it. None of them is two dots. -/
structure Location where
  origin : Origin
  names : List String
deriving Repr, DecidableEq

/-- Files and directories by their places. A directory above a file need not be listed. -/
structure FileTree where
  directories : List Location
  files : List (Location × List UInt8)
deriving Repr, DecidableEq

/-- Why a file or a directory cannot be found or made. -/
inductive FileFault where
  | missing (path : String)
  | alreadyThere (path : String)
  | notDirectory (path : String)
  | isDirectory (path : String)
  | nameTooLong (path : String)
  | zeroCharacter
deriving Repr, DecidableEq

namespace FileFault

/-- The report of a fault about a path, with the system's number for it. -/
def about (number : Nat) (reason path : String) : String :=
  "[Errno " ++ toString number ++ "] " ++ reason ++ ": " ++ Text.quote path

/-- The report of a fault. -/
def message : FileFault → String
  | missing path => about 2 "No such file or directory" path
  | alreadyThere path => about 17 "File exists" path
  | notDirectory path => about 20 "Not a directory" path
  | isDirectory path => about 21 "Is a directory" path
  | nameTooLong path => about 36 "File name too long" path
  | zeroCharacter => "embedded null byte"

end FileFault

/-- A change of files; what it did before a fault stays done. -/
abbrev FileChange := ExceptT FileFault (StateM FileTree)

/-- Carry out a change of files. -/
def FileTree.apply {α : Type} (tree : FileTree) (change : FileChange α) :
    Except FileFault α × FileTree :=
  StateT.run (ExceptT.run change) tree

namespace Location

/-- The place a path starts from. -/
def ofAnchor : Anchor → Location
  | .workingDirectory => ⟨.above 0, []⟩
  | .root | .doubleRoot => ⟨.root, []⟩

/-- The place of a name in a directory. -/
def child (place : Location) (name : String) : Location := ⟨place.origin, place.names ++ [name]⟩

/-- The directory that holds a place. The root holds itself. -/
def parent (place : Location) : Location :=
  if place.names.isEmpty then
    match place.origin with
    | .root => ⟨.root, []⟩
    | .above steps => ⟨.above (steps + 1), []⟩
  else ⟨place.origin, place.names.dropLast⟩

/-- The place that a part of a path leads to. -/
def follow (place : Location) (part : String) : Location :=
  if part == ".." then place.parent else place.child part

/-- The names that lead from a place to another one below it. -/
def below? (place other : Location) : Option (List String) :=
  if place.origin == other.origin && place.names.isPrefixOf other.names
      && place.names.length < other.names.length then
    some (other.names.drop place.names.length)
  else none

end Location

namespace FileTree

/-- No files. -/
def empty : FileTree := ⟨[], []⟩

/-! ### What there is -/

/-- The most bytes that a name may have. -/
def longestName : Nat := 255

/-- The most bytes that the text of a path may have. -/
def longestPath : Nat := 4095

/-- The bytes of the file at a place. -/
def bytesAt? (tree : FileTree) (place : Location) : Option (List UInt8) :=
  tree.files.lookup place

/-- Whether a place is a directory: the working directory, those above it and the root are, and so is
all that something is below. -/
def isDirectoryAt (tree : FileTree) (place : Location) : Bool :=
  place.names.isEmpty || tree.directories.contains place
    || tree.directories.any (fun other => (place.below? other).isSome)
    || tree.files.any fun file => (place.below? file.1).isSome

/-- Follow parts of a path from a place. All but the last must lead to directories. -/
def followParts (tree : FileTree) (path : String) (place : Location) :
    List String → Except FileFault Location
  | [] => .ok place
  | part :: rest =>
      if tree.isDirectoryAt place then
        if part.utf8ByteSize > longestName then .error (.nameTooLong path)
        else tree.followParts path (place.follow part) rest
      else if (tree.bytesAt? place).isSome then .error (.notDirectory path)
      else .error (.missing path)

/-- The place that a path leads to; nothing need be there. The character zero is in no name. -/
def locate (tree : FileTree) (path : Path) : Except FileFault Location :=
  if path.text.toList.contains '\x00' then .error .zeroCharacter
  else if path.text.utf8ByteSize > longestPath then .error (.nameTooLong path.text)
  else tree.followParts path.text (.ofAnchor path.anchor) path.parts

/-- The bytes of the file that a path leads to. -/
def read? (tree : FileTree) (path : Path) : Option (List UInt8) :=
  (tree.locate path).toOption.bind tree.bytesAt?

/-- Whether a path leads to a place of some kind. Only a name that is too long keeps one from
telling. -/
def leadsTo (tree : FileTree) (path : Path) (kind : Location → Bool) : Except FileFault Bool :=
  match tree.locate path with
  | .ok place => .ok (kind place)
  | .error (.nameTooLong text) => .error (.nameTooLong text)
  | .error _ => .ok false

/-- Whether a path leads to a file. -/
def isFile (tree : FileTree) (path : Path) : Except FileFault Bool :=
  tree.leadsTo path fun place => (tree.bytesAt? place).isSome

/-- Whether a path leads to a directory. -/
def isDirectory (tree : FileTree) (path : Path) : Except FileFault Bool :=
  tree.leadsTo path tree.isDirectoryAt

/-- The paths of all files below the directory that a path leads to. -/
def filesBelow (tree : FileTree) (base : Path) : List Path :=
  match tree.locate base with
  | .error _ => []
  | .ok place => tree.files.filterMap fun file =>
      (place.below? file.1).map fun names => names.foldl Path.child base

/-! ### What is put there -/

/-- Put a file at a place, over the one that may be there. -/
def put (tree : FileTree) (place : Location) (bytes : List UInt8) : FileTree :=
  { tree with files := (place, bytes) :: tree.files.filter fun file => file.1 != place }

/-- Make a directory at a place, unless there is one. -/
def addDirectory (tree : FileTree) (place : Location) : FileTree :=
  if tree.isDirectoryAt place then tree
  else { tree with directories := place :: tree.directories }

end FileTree

namespace FileChange

/-- Make a directory, unless there is one. The one above it must be there. -/
def makeDirectory (path : Path) : FileChange Unit := do
  let tree ← get
  let place ← MonadExcept.ofExcept (tree.locate path)
  if (tree.bytesAt? place).isSome then throw (.alreadyThere path.text)
  set (tree.addDirectory place)

/-- Make a directory and those above it, as far as they are missing. -/
def makeDirectories (path : Path) : FileChange Unit := do
  match (← get).locate path with
  | .error (.missing text) =>
      if path.parts.isEmpty then throw (.missing text)
      else
        makeDirectories path.parent
        makeDirectory path
  | _ => makeDirectory path
termination_by path.parts.length
decreasing_by
  rename_i nonempty
  simp only [List.isEmpty_iff] at nonempty
  have := List.length_pos_iff.2 nonempty
  simp only [Path.parent, List.length_dropLast]
  omega

/-- Write a file, over the one that may be there. -/
def write (path : Path) (bytes : List UInt8) : FileChange Unit := do
  let tree ← get
  let place ← MonadExcept.ofExcept (tree.locate path)
  if tree.isDirectoryAt place then throw (.isDirectory path.text)
  set (tree.put place bytes)

end FileChange

end HeaderBindings
