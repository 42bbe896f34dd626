/-
Module: HeaderBindings.Source.Listing
Purpose: Reading syntax trees from listings, in which every node stands in parentheses as its kind, the
  rows and columns where it begins and ends, and its children, each after the name of its field.
Main exports: Listing.Token, Listing.tokens, Listing.read?
-/
import HeaderBindings.Source.Document

namespace HeaderBindings.Listing

/-- A part of a listing that means something; brackets, commas and hyphens do not. -/
inductive Token where
  | opening
  | closing
  | word (text : String)
  | field (text : String)
  | number (value : Nat)
deriving Repr, DecidableEq

/-- Whether a character may be in a word. -/
def isWordChar (c : Char) : Bool := c.isAlphanum || c == '_'

/-- The token of a run of word characters, which is a field's name if a colon follows it. -/
def ofRun (run : List Char) (next : Option Char) : Token :=
  if run.all Char.isDigit then .number (run.foldl (fun value c => value * 10 + (c.toNat - 48)) 0)
  else if next == some ':' then .field (String.ofList run)
  else .word (String.ofList run)

/-- The token that a run of word characters, last one first, ends in, if there is a run. -/
def endRun (run : List Char) (next : Option Char) : List Token :=
  if run.isEmpty then [] else [ofRun run.reverse next]

/-- The tokens of a listing, given the word characters just before it, last one first. -/
def tokensFrom (run : List Char) : List Char → List Token
  | [] => endRun run none
  | c :: rest =>
      if isWordChar c then tokensFrom (c :: run) rest
      else
        let own := if c == '(' then [.opening] else if c == ')' then [.closing] else []
        endRun run (some c) ++ own ++ tokensFrom [] rest

/-- The tokens of a listing. -/
def tokens (text : List Char) : List Token := tokensFrom [] text

/-- A node whose closing parenthesis has not come yet. -/
structure Unclosed where
  field : Option String
  words : List String
  numbers : List Nat
  children : List Tree
  nextField : Option String

/-- The place of a row and a column: the bytes of the rows before it, and the column. -/
def offset (rowStarts : List Nat) (row column : Nat) : Nat := rowStarts.getD row 0 + column

/-- The nodes that an unclosed node comes to when it is closed. The kind is the last word: a word
before it says that the node is missing from the source. What has no kind is no node. -/
def Unclosed.close (rowStarts : List Nat) (unclosed : Unclosed) : List Tree :=
  match unclosed.numbers, unclosed.words.getLast? with
  | [row, column, lastRow, lastColumn], some kind =>
      if kind == "MISSING" then []
      else [.node ⟨kind, offset rowStarts row column, offset rowStarts lastRow lastColumn,
        unclosed.field⟩ unclosed.children]
  | _, _ => []

/-- Read tokens inside unclosed nodes, innermost first; answer the first node that is complete. -/
def readTokens (rowStarts : List Nat) : List Unclosed → List Token → Option Tree
  | _, [] => none
  | [], .opening :: rest => readTokens rowStarts [⟨none, [], [], [], none⟩] rest
  | [], _ :: rest => readTokens rowStarts [] rest
  | node :: outer, .opening :: rest =>
      readTokens rowStarts
        (⟨node.nextField, [], [], [], none⟩ :: { node with nextField := none } :: outer) rest
  | node :: outer, .word text :: rest =>
      readTokens rowStarts ({ node with words := node.words ++ [text] } :: outer) rest
  | node :: outer, .number value :: rest =>
      readTokens rowStarts ({ node with numbers := node.numbers ++ [value] } :: outer) rest
  | node :: outer, .field text :: rest =>
      readTokens rowStarts ({ node with nextField := some text } :: outer) rest
  | [node], .closing :: _ => (node.close rowStarts).head?
  | node :: parent :: outer, .closing :: rest =>
      readTokens rowStarts
        ({ parent with children := parent.children ++ node.close rowStarts } :: outer) rest

/-- Where the rows of a source begin. -/
def rowStarts (bytes : List UInt8) : List Nat :=
  0 :: (bytes.zipIdx.filter fun entry => entry.1 == 10).map fun entry => entry.2 + 1

/-- The document of a source and the listing of its tree. A node of kind `ERROR`, or one that is
missing, shows that a part could not be parsed. -/
def read? (bytes : List UInt8) (listing : String) : Option Document :=
  let listed := tokens listing.toList
  (readTokens (rowStarts bytes) [] listed).map fun tree =>
    ⟨bytes, tree, listed.any fun token => token == .word "ERROR" || token == .word "MISSING"⟩

end HeaderBindings.Listing
