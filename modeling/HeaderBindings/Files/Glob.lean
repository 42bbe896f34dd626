/-
Module: HeaderBindings.Files.Glob
Purpose: Patterns of file names: a star for any text, a question mark for any character, brackets for
  one of some characters.
Main exports: Glob, Glob.ofName?, Glob.hasWildcard, Glob.matchesName
-/

namespace HeaderBindings

/-- What brackets list: a character, or a range of them. -/
inductive Glob.Item where
  | one (c : Char)
  | range (low high : Char)
deriving Repr, DecidableEq

/-- A piece of a file name pattern. -/
inductive Glob.Piece where
  | anyText
  | anyChar
  | oneOf (negated : Bool) (items : List Glob.Item)
deriving Repr, DecidableEq

/-- A pattern of file names. Two stars alone stand for directories, and so for no file. -/
inductive Glob where
  | directories
  | files (pieces : List Glob.Piece)
deriving Repr, DecidableEq

namespace Glob

/-! ### Brackets -/

/-- Whether an item lists a character. -/
def Item.lists (c : Char) : Item → Bool
  | one listed => c == listed
  | range low high => low.toNat ≤ c.toNat && c.toNat ≤ high.toNat

/-- The items between brackets: a hyphen between two characters makes a range of them, any other
hyphen is itself, and a range that ends before it begins lists nothing. -/
def readItems : List Char → List Item
  | low :: '-' :: high :: rest =>
      if high.toNat < low.toNat then readItems rest else .range low high :: readItems rest
  | c :: rest => .one c :: readItems rest
  | [] => []

/-- The piece for what stands between brackets. A mark of exclamation at the beginning negates; a
range that lists nothing may stand before it. -/
def ofBrackets (content : List Char) : Piece :=
  match content with
  | '!' :: rest => .oneOf true (readItems rest)
  | _ => match readItems content with
    | .one '!' :: items => .oneOf true items
    | .range '!' high :: items => .oneOf true (.one '-' :: .one high :: items)
    | items => .oneOf false items

/-- What may begin the content of brackets although it would otherwise end or change it: a mark of
exclamation, then a closing bracket. -/
def opening (text : List Char) : List Char :=
  match text with
  | '!' :: ']' :: _ => ['!', ']']
  | '!' :: _ => ['!']
  | ']' :: _ => [']']
  | _ => []

/-- A text up to the first closing bracket, and what follows the bracket. -/
def untilClosing : List Char → Option (List Char × List Char)
  | [] => none
  | c :: rest =>
      if c == ']' then some ([], rest)
      else (untilClosing rest).map fun (content, tail) => (c :: content, tail)

/-- The content of brackets that have just been opened, and what follows the closing bracket. -/
def takeBrackets? (text : List Char) : Option (List Char × List Char) :=
  let start := opening text
  (untilClosing (text.drop start.length)).map fun (content, tail) => (start ++ content, tail)

/-- What follows the closing bracket is shorter than the text. -/
theorem length_untilClosing {text content rest : List Char}
    (found : untilClosing text = some (content, rest)) : rest.length < text.length := by
  induction text generalizing content with
  | nil => simp [untilClosing] at found
  | cons c tail ih =>
      unfold untilClosing at found
      split at found
      · simp only [Option.some.injEq, Prod.mk.injEq] at found
        simp [found.2]
      · obtain ⟨⟨before, after⟩, inner, same⟩ := Option.map_eq_some_iff.1 found
        simp only [Prod.mk.injEq] at same
        have shorter := ih (inner.trans (congrArg some (Prod.ext rfl same.2)))
        exact Nat.lt_succ_of_lt shorter

/-- What follows brackets is shorter than the text they were taken from. -/
theorem length_takeBrackets {text content rest : List Char}
    (taken : takeBrackets? text = some (content, rest)) : rest.length < text.length := by
  obtain ⟨⟨inside, after⟩, inner, same⟩ := Option.map_eq_some_iff.1 taken
  simp only [Prod.mk.injEq] at same
  obtain ⟨-, rfl⟩ := same
  have shorter := length_untilClosing inner
  simp only [List.length_drop] at shorter
  omega

/-! ### Patterns -/

/-- The pieces of a pattern. A bracket that is never closed is itself. -/
def readPieces (text : List Char) : List Piece :=
  match text with
  | [] => []
  | '*' :: rest => .anyText :: readPieces rest
  | '?' :: rest => .anyChar :: readPieces rest
  | '[' :: rest =>
      match taken : takeBrackets? rest with
      | some (content, tail) =>
          have := length_takeBrackets taken
          ofBrackets content :: readPieces tail
      | none => .oneOf false [.one '['] :: readPieces rest
  | c :: rest => .oneOf false [.one c] :: readPieces rest
termination_by text.length

/-- Whether a text has two stars in a row. -/
def hasDoubleStar : List Char → Bool
  | '*' :: '*' :: _ => true
  | _ :: rest => hasDoubleStar rest
  | [] => false

/-- Whether a file name has a character that may stand for others. -/
def hasWildcard (name : String) : Bool :=
  name.toList.any fun c => c == '*' || c == '?' || c == '['

/-- The pattern that a file name spells. None if it has two stars in a row and something else. -/
def ofName? (name : String) : Option Glob :=
  if name == "**" then some .directories
  else if hasDoubleStar name.toList then none
  else some (.files (readPieces name.toList))

/-- Whether a piece for one character admits it. -/
def Piece.admits (c : Char) : Piece → Bool
  | anyText => false
  | anyChar => true
  | oneOf negated items => negated != items.any (Item.lists c)

/-- Whether pieces match a whole text. -/
def matchPieces : List Piece → List Char → Bool
  | [], text => text.isEmpty
  | .anyText :: pieces, [] => matchPieces pieces []
  | .anyText :: pieces, c :: rest =>
      matchPieces pieces (c :: rest) || matchPieces (.anyText :: pieces) rest
  | _ :: _, [] => false
  | piece :: pieces, c :: rest => piece.admits c && matchPieces pieces rest
termination_by pieces text => (pieces.length, text.length)

/-- Whether a pattern matches the name of a file. -/
def matchesName (glob : Glob) (name : String) : Bool :=
  match glob with
  | directories => false
  | files pieces => matchPieces pieces name.toList

end Glob

end HeaderBindings
