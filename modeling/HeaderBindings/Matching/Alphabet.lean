/-
Module: HeaderBindings.Matching.Alphabet
Purpose: Codes for kinds of node, one for each kind that a pattern names and one for all others.
Main exports: Alphabet, Alphabet.add, Alphabet.code, Alphabet.encode
-/

namespace HeaderBindings

/-- The kinds that have a code of their own, in the order in which they were added. -/
structure Alphabet where
  kinds : List String
deriving Repr, DecidableEq

namespace Alphabet

/-- The alphabet without kinds. -/
def empty : Alphabet := ⟨[]⟩

/-- The code of every kind that was not added. -/
def otherCode : Nat := 0xE000

/-- The code of the kind that was added first; each further kind has the next one. -/
def firstCode : Nat := 0xE001

/-- The number of kinds that have a code of their own. -/
def size (alphabet : Alphabet) : Nat := alphabet.kinds.length

/-- Whether a kind has a code of its own. -/
def contains (alphabet : Alphabet) (kind : String) : Bool := alphabet.kinds.contains kind

/-- The alphabet with one more kind, unless it has it. -/
def add (alphabet : Alphabet) (kind : String) : Alphabet :=
  if alphabet.contains kind then alphabet else ⟨alphabet.kinds ++ [kind]⟩

/-- The alphabet with further kinds, added in order. -/
def addAll (alphabet : Alphabet) (kinds : List String) : Alphabet :=
  kinds.foldl add alphabet

/-- The code of a kind. -/
def code (alphabet : Alphabet) (kind : String) : Nat :=
  match alphabet.kinds.idxOf? kind with
  | some index => firstCode + index
  | none => otherCode

/-- The codes of kinds in order. -/
def encode (alphabet : Alphabet) (kinds : List String) : List Nat :=
  kinds.map alphabet.code

end Alphabet

end HeaderBindings
