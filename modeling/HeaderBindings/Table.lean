/-
Module: HeaderBindings.Table
Purpose: Registered patterns by the kinds they name, each with an action; the first pattern that
  matches a node claims it.
Main exports: Entry, Table, Table.register, Table.registerText, Table.candidates, Table.claim?,
  Table.describe
-/
import HeaderBindings.Matching.Match
import HeaderBindings.Pattern.Parser

namespace HeaderBindings

/-- A registered pattern and what to do with the nodes it claims, if anything. -/
structure Entry (Action : Type) where
  matcher : Matcher
  action : Option Action

/-- Registered patterns: for every kind, in the order in which kinds were first named, the patterns
that name it; and all patterns, in the order in which they were registered. -/
structure Table (Action : Type) where
  buckets : List (String × List (Entry Action))
  entries : List (Entry Action)

/-- A node's claim: the entry that claims it, and the match. -/
structure Claim (Action : Type) where
  entry : Entry Action
  found : Match

namespace Table

variable {Action : Type}

/-- The table without patterns. -/
def empty : Table Action := ⟨[], []⟩

/-- The number of registrations. -/
def size (table : Table Action) : Nat := table.entries.length

/-- The kinds named by registered patterns. -/
def kinds (table : Table Action) : List String := table.buckets.map (·.1)

/-- Whether a registered pattern names a kind. -/
def hasKind (table : Table Action) (kind : String) : Bool := table.kinds.contains kind

/-- The entries whose patterns name a kind, in order of registration. -/
def candidates (table : Table Action) (kind : String) : List (Entry Action) :=
  (table.buckets.lookup kind).getD []

/-- Buckets with an entry put at the end of a kind's bucket. -/
def putInBucket (entry : Entry Action) (kind : String) :
    List (String × List (Entry Action)) → List (String × List (Entry Action))
  | [] => [(kind, [entry])]
  | (named, bucket) :: rest =>
      if named == kind then (named, bucket ++ [entry]) :: rest
      else (named, bucket) :: putInBucket entry kind rest

/-- The table with one more entry, under every kind that its pattern names. -/
def insert (table : Table Action) (entry : Entry Action) : Table Action :=
  ⟨entry.matcher.pattern.head.kinds.foldl (fun buckets kind => putInBucket entry kind buckets)
      table.buckets,
    table.entries ++ [entry]⟩

/-- Compile a pattern and register it. The pattern must name a kind. The kinds that were added to
the alphabet stay in it when the compilation fails. -/
def register (table : Table Action) (alphabet : Alphabet) (pattern : Pattern)
    (action : Option Action) : Except PatternError (Table Action) × Alphabet :=
  if pattern.head.kinds.isEmpty then (.error ⟨.unnamedTop, pattern.render 0⟩, alphabet)
  else match pattern.compile alphabet with
    | (.error error, extended) => (.error error, extended)
    | (.ok matcher, extended) => (.ok (table.insert ⟨matcher, action⟩), extended)

/-- Read a pattern and register it. -/
def registerText (table : Table Action) (alphabet : Alphabet) (text : String)
    (fragments : Pattern.Fragments) (action : Option Action) :
    Except PatternError (Table Action) × Alphabet :=
  match Pattern.parse text fragments with
  | .error error => (.error error, alphabet)
  | .ok pattern => table.register alphabet pattern action

/-- The claim on a node: the first candidate of its kind that matches it, with the match. -/
def claim? (table : Table Action) (alphabet : Alphabet) (cursor : Cursor) : Option (Claim Action) :=
  (table.candidates cursor.kind).findSome? fun entry =>
    (entry.matcher.find? alphabet none cursor).map (⟨entry, ·⟩)

/-- The written forms of all patterns, under each kind they name. -/
def describe (table : Table Action) : String :=
  String.intercalate "\n\n" <| table.buckets.flatMap fun (kind, bucket) =>
    bucket.map fun entry => "# " ++ kind ++ "\n" ++ entry.matcher.pattern.render 0

end Table

end HeaderBindings
