/-
Module: HeaderBindings.Files.Path
Purpose: Paths as an anchor and the names that lead on from it.
Main exports: Anchor, Path, Homes, HomeFault, Path.ofString, Path.text, Path.name, Path.suffix,
  Path.join, Path.expandHome, Path.resolved
-/
import HeaderBindings.Text.Blank

namespace HeaderBindings

open Text

/-- Where a path starts: at the working directory, at the root, or at the root that exactly two
slashes stand for. -/
inductive Anchor where
  | workingDirectory
  | root
  | doubleRoot
deriving Repr, DecidableEq

/-- A path. Its parts are not empty, have no slash and are not a single dot, as `Path.ofString` makes
them; two dots stay as they are. -/
structure Path where
  anchor : Anchor
  parts : List String
deriving Repr, DecidableEq

/-- Where the homes of users are: the one that is set for the user, the one that the system lists for the
user, and those that it lists for the names of users. -/
structure Homes where
  setting : Option String
  own : Option String
  ofUser : String → Option String

/-- Why a home is not known. -/
inductive HomeFault where
  | unknown
  | zeroCharacter
deriving Repr, DecidableEq

/-- The report of a fault. -/
def HomeFault.message : HomeFault → String
  | unknown => "Could not determine home directory."
  | zeroCharacter => "embedded null byte"

namespace Anchor

/-- The slashes of an anchor. -/
def text : Anchor → String
  | workingDirectory => ""
  | root => "/"
  | doubleRoot => "//"

/-- The anchor of a text that begins with so many slashes. -/
def ofSlashes (count : Nat) : Anchor :=
  if count == 0 then workingDirectory else if count == 2 then doubleRoot else root

end Anchor

namespace Path

/-- Whether a part between slashes leads anywhere. -/
def isPart (part : List Char) : Bool := !part.isEmpty && part != ['.']

/-- The path that a text spells. -/
def ofChars (text : List Char) : Path :=
  ⟨Anchor.ofSlashes (text.takeWhile (· == '/')).length,
    ((splitAtMark '/' text).filter isPart).map String.ofList⟩

/-- The path that a string spells. -/
def ofString (text : String) : Path := ofChars text.toList

/-- The text of a path; the working directory itself is a dot. -/
def text (path : Path) : String :=
  if path.anchor == .workingDirectory && path.parts.isEmpty then "."
  else path.anchor.text ++ String.intercalate "/" path.parts

/-- The last part of a path; none of it is the empty text. -/
def name (path : Path) : String := path.parts.getLast?.getD ""

/-- The end of a file name from its last dot on, if there is something before the dot and something
after it. -/
def suffixOf (name : List Char) : List Char :=
  let reversed := name.reverse
  let extension := reversed.takeWhile (· != '.')
  let stem := (reversed.dropWhile (· != '.')).drop 1
  if extension.isEmpty || stem.isEmpty then [] else '.' :: extension.reverse

/-- The suffix of a path's last part. -/
def suffix (path : Path) : String := String.ofList (suffixOf path.name.toList)

/-- Follow a path from another one. A path from the root stands by itself. -/
def join (base path : Path) : Path :=
  if path.anchor == .workingDirectory then ⟨base.anchor, base.parts ++ path.parts⟩ else path

/-- The path to a name in the directory that a path leads to. -/
def child (base : Path) (name : String) : Path := ⟨base.anchor, base.parts ++ [name]⟩

/-- The path without its last part. -/
def parent (path : Path) : Path := ⟨path.anchor, path.parts.dropLast⟩

/-- The directory that the text of a home spells: slashes at its end do not count, and nothing is the
root. A home that begins with a tilde is as good as none. -/
def directoryOfHome (home : Option String) : Except HomeFault Path :=
  match home.map fun text => dropEndWhile (· == '/') text.toList with
  | none | some ('~' :: _) => .error .unknown
  | some [] => .ok ⟨.root, []⟩
  | some directory => .ok (ofChars directory)

/-- The directory that stands for a tilde and a name after it; without a name it is the user's own. No
list of users is asked for a name with the character zero in it. -/
def directoryAfterTilde (homes : Homes) (user : List Char) : Except HomeFault Path :=
  if user.contains '\x00' then .error .zeroCharacter
  else directoryOfHome <|
    if user.isEmpty then homes.setting.or homes.own else homes.ofUser (String.ofList user)

/-- Put a user's home for the first part of a path if that begins with a tilde. -/
def expandHome (homes : Homes) (path : Path) : Except HomeFault Path :=
  match path.anchor, path.parts with
  | .workingDirectory, first :: rest =>
      match first.toList with
      | '~' :: user => (directoryAfterTilde homes user).map fun directory =>
          directory.join ⟨.workingDirectory, rest⟩
      | _ => .ok path
  | _, _ => .ok path

/-- Names with every pair of two dots and the name before them left out; two dots at the root stay
there. -/
def collapse (names : List String) : List String :=
  names.foldl (fun done name => if name == ".." then done.dropLast else done ++ [name]) []

/-- A path from the root, without two dots. -/
def resolved (path workingDirectory : Path) : Path :=
  ⟨.root, collapse (workingDirectory.join path).parts⟩

end Path

end HeaderBindings
