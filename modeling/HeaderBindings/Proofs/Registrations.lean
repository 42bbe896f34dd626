/-
Module: HeaderBindings.Proofs.Registrations
Purpose: What tables that share an alphabet hold and claim after any registrations, of which some are
  refused: the index by kinds hides no pattern, and a refused registration cannot be noticed.
Main exports: Pattern.firstOpen?, Registration, Registration.Refused, Tables, Table.Holds,
  Tables.registerAll_holds, Tables.registerAll_claims_first, Tables.register_refused_unnoticed
-/
import HeaderBindings.Generation
import HeaderBindings.Proofs.AlphabetHistory
import HeaderBindings.Proofs.DefaultGrammar

namespace HeaderBindings

/-! ### Patterns that do not compile -/

namespace Pattern

/-- The first of a pattern and those below it whose children end with an alternative. -/
def firstOpen? (pattern : Pattern) : Option Pattern :=
  pattern.descendants.find? fun below => endsOpen below.children

/-- The error of a pattern whose children end with an alternative. -/
def openError (pattern : Pattern) : PatternError :=
  ⟨.danglingAlternative pattern.head.name, pattern.render 0⟩

theorem firstOpen?_eq_none_iff {pattern : Pattern} : pattern.firstOpen? = none ↔ pattern.Closed := by
  simp [firstOpen?, Closed]

instance (pattern : Pattern) : Decidable pattern.Closed :=
  decidable_of_iff (pattern.firstOpen? = none) firstOpen?_eq_none_iff

theorem itemsAfter?_eq_none (alphabet : Alphabet) (run : List Group) {children : List Pattern}
    (open_ : endsOpen children = true) : itemsAfter? alphabet run children = none := by
  induction children generalizing run with
  | nil => cases open_
  | cons child rest ih =>
      rw [itemsAfter?_cons]
      cases rest with
      | nil =>
          have alternative : (child.head.quantifier == .alternative) = true := open_
          rw [if_pos alternative]
          cases run <;> rfl
      | cons second others =>
          rw [endsOpen_cons_cons] at open_
          rw [ih _ open_, ih _ open_, Option.map_none, ite_self]

mutual

/-- A pattern fails to compile at the first pattern whose children end with an alternative. -/
theorem compile_open : ∀ (pattern : Pattern) (alphabet : Alphabet) {below : Pattern},
    pattern.firstOpen? = some below →
    ∃ final, pattern.compile alphabet = (.error below.openError, final)
  | node head children, alphabet, below, first => by
      unfold firstOpen? at first
      rw [descendants, List.find?_cons] at first
      unfold compile
      dsimp only
      cases ends : endsOpen children with
      | true =>
          rw [Pattern.children, ends] at first
          cases first
          rw [regex?, itemsAfter?_eq_none _ _ ends]
          exact ⟨_, rfl⟩
      | false =>
          rw [Pattern.children, ends] at first
          rw [regex?_eq _ ends]
          obtain ⟨final, fails⟩ := compileList_open children
            (addKinds (alphabet.addAll head.kinds) children) first
          dsimp only
          rw [fails]
          exact ⟨final, rfl⟩

/-- Patterns that are compiled one after another fail at the first one whose children end so. -/
theorem compileList_open : ∀ (patterns : List Pattern) (alphabet : Alphabet) {below : Pattern},
    (descendantsOfList patterns).find? (fun below => endsOpen below.children) = some below →
    ∃ final, compileList alphabet patterns = (.error below.openError, final)
  | [], _, _, first => by cases first
  | pattern :: rest, alphabet, below, first => by
      rw [descendantsOfList, List.find?_append] at first
      unfold compileList
      -- Without such a pattern the first one compiles, and the error comes from a later one.
      cases here : pattern.firstOpen? with
      | some other =>
          obtain ⟨final, fails⟩ := compile_open pattern alphabet here
          unfold firstOpen? at here
          rw [here] at first
          cases first
          rw [fails]
          exact ⟨final, rfl⟩
      | none =>
          obtain ⟨matcher, middle, compiles, _⟩ :=
            compile_closed pattern alphabet (firstOpen?_eq_none_iff.mp here)
          unfold firstOpen? at here
          rw [here, Option.none_or] at first
          obtain ⟨final, fails⟩ := compileList_open rest middle first
          rw [compiles]
          dsimp only
          rw [fails]
          exact ⟨final, rfl⟩

end

end Pattern

/-! ### Registrations -/

/-- What is registered: a pattern that was built, or a text that is to be read without fragments. -/
inductive PatternSource where
  | built (pattern : Pattern)
  | written (text : String)

/-- The pattern that a source stands for, if it does. -/
def PatternSource.pattern : PatternSource → Except PatternError Pattern
  | built pattern => .ok pattern
  | written text => Pattern.parse text []

/-- A pattern to register, and what to do with the nodes that it claims, if anything. -/
structure Registration (Action : Type) where
  source : PatternSource
  action : Option Action

/-- A pattern that a table takes: it names a kind, and every child list in it has a last child that
alternatives can share with. -/
def Pattern.Registrable (pattern : Pattern) : Prop :=
  pattern.head.kinds ≠ [] ∧ pattern.Closed

instance (pattern : Pattern) : Decidable pattern.Registrable :=
  inferInstanceAs (Decidable (_ ∧ _))

namespace Registration

variable {Action : Type}

/-- Carry out a registration with a table. -/
def carryOut (registration : Registration Action) (table : Table Action) (alphabet : Alphabet) :
    Except PatternError (Table Action) × Alphabet :=
  match registration.source with
  | .built pattern => table.register alphabet pattern registration.action
  | .written text => table.registerText alphabet text [] registration.action

theorem carryOut_eq (registration : Registration Action) (table : Table Action)
    (alphabet : Alphabet) :
    registration.carryOut table alphabet = match registration.source.pattern with
      | .error error => (.error error, alphabet)
      | .ok pattern => table.register alphabet pattern registration.action := by
  unfold carryOut
  cases registration.source <;> rfl

/-- The pattern and the action that a registration adds, if it is accepted. -/
def accepted? (registration : Registration Action) : Option (Pattern × Option Action) :=
  match registration.source.pattern with
  | .error _ => none
  | .ok pattern => if pattern.Registrable then some (pattern, registration.action) else none

/-- Why a registration is refused: its text cannot be read, its pattern names no kind, or the children
of a pattern in it end with an alternative. -/
inductive Refused (registration : Registration Action) : PatternError → Prop where
  | unread {error : PatternError} (fails : registration.source.pattern = .error error) :
      Refused registration error
  | unnamed {pattern : Pattern} (reads : registration.source.pattern = .ok pattern)
      (nameless : pattern.head.kinds = []) :
      Refused registration ⟨.unnamedTop, pattern.render 0⟩
  | dangling {pattern below : Pattern} (reads : registration.source.pattern = .ok pattern)
      (named : pattern.head.kinds ≠ []) (first : pattern.firstOpen? = some below) :
      Refused registration below.openError

/-- A registration is accepted and inserts its entry, or it is refused. -/
theorem carryOut_cases (registration : Registration Action) (table : Table Action)
    (alphabet : Alphabet) :
    (∃ matcher grown, registration.carryOut table alphabet
        = (.ok (table.insert ⟨matcher, registration.action⟩), grown) ∧
      alphabet.Extends grown ∧ matcher.Compiled grown ∧ matcher.pattern.Registrable ∧
      registration.accepted? = some (matcher.pattern, registration.action)) ∨
    (∃ error grown, registration.carryOut table alphabet = (.error error, grown) ∧
      alphabet.Extends grown ∧ registration.Refused error ∧ registration.accepted? = none) := by
  rw [carryOut_eq]
  unfold accepted?
  cases reads : registration.source.pattern with
  | error error => exact .inr ⟨error, alphabet, rfl, .refl alphabet, .unread reads, rfl⟩
  | ok pattern =>
      dsimp only
      by_cases nameless : pattern.head.kinds = []
      · refine .inr ⟨_, alphabet, ?_, .refl alphabet, .unnamed reads nameless, ?_⟩
        · rw [Table.register, if_pos (List.isEmpty_iff.mpr nameless)]
        · rw [if_neg fun registrable => registrable.1 nameless]
      · have named : pattern.head.kinds.isEmpty = false := by simpa using nameless
        cases first : pattern.firstOpen? with
        | none =>
            have closed := Pattern.firstOpen?_eq_none_iff.mp first
            obtain ⟨matcher, grown, registered, extends_, compiled, rfl⟩ :=
              Table.register_closed closed named table alphabet registration.action
            exact .inl ⟨matcher, grown, registered, extends_, compiled, ⟨nameless, closed⟩,
              if_pos ⟨nameless, closed⟩⟩
        | some below =>
            obtain ⟨grown, fails⟩ := Pattern.compile_open pattern alphabet first
            have extends_ := pattern.compile_extends alphabet
            rw [fails] at extends_
            refine .inr ⟨below.openError, grown, ?_, extends_, .dangling reads nameless first, ?_⟩
            · rw [Table.register, named, if_neg Bool.false_ne_true, fails]
            · refine if_neg fun registrable => ?_
              rw [Pattern.firstOpen?_eq_none_iff.mpr registrable.2] at first
              cases first

end Registration

/-! ### What a table holds -/

theorem findSome?_flatMap_replicate {α β : Type} (search : α → Option β) (times : α → Nat)
    {entries : List α} (skipped : ∀ entry ∈ entries, times entry = 0 → search entry = none) :
    (entries.flatMap fun entry => List.replicate (times entry) entry).findSome? search
      = entries.findSome? search := by
  induction entries with
  | nil => rfl
  | cons first rest ih =>
      rw [List.forall_mem_cons] at skipped
      rw [List.flatMap_cons, List.findSome?_append, List.findSome?_replicate, ih skipped.2,
        List.findSome?_cons]
      split
      · rename_i never
        rw [skipped.1 never, Option.none_or]
      · cases search first <;> rfl

namespace Table

variable {Action : Type}

/-- The claim on a node of the first entry that matches it, whatever kinds the entries name. -/
def firstClaim? (table : Table Action) (alphabet : Alphabet) (cursor : Cursor) :
    Option (Claim Action) :=
  table.entries.findSome? fun entry =>
    (entry.matcher.find? alphabet none cursor).map (⟨entry, ·⟩)

/-- A table holds patterns with their actions in the order in which they were added: each is compiled
against the alphabet and offered for every kind that it names, as often as it names it. -/
structure Holds (alphabet : Alphabet) (table : Table Action)
    (added : List (Pattern × Option Action)) : Prop where
  entries : table.entries.map (fun entry => (entry.matcher.pattern, entry.action)) = added
  candidates : ∀ kind, table.candidates kind = table.entries.flatMap fun entry =>
    List.replicate (entry.matcher.pattern.head.kinds.count kind) entry
  compiled : ∀ entry ∈ table.entries, entry.matcher.Compiled alphabet
  registrable : ∀ entry ∈ table.entries, entry.matcher.pattern.Registrable

theorem holds_empty (alphabet : Alphabet) : (empty : Table Action).Holds alphabet [] where
  entries := rfl
  candidates _ := rfl
  compiled _ member := nomatch member
  registrable _ member := nomatch member

namespace Holds

variable {alphabet : Alphabet} {table : Table Action} {added : List (Pattern × Option Action)}

theorem of_extends {grown : Alphabet} (holds : table.Holds alphabet added)
    (extends_ : alphabet.Extends grown) : table.Holds grown added :=
  { holds with
    compiled := fun entry member => (holds.compiled entry member).of_extends extends_ }

theorem insert (holds : table.Holds alphabet added) {matcher : Matcher}
    (compiled : matcher.Compiled alphabet) (registrable : matcher.pattern.Registrable)
    (action : Option Action) :
    (table.insert ⟨matcher, action⟩).Holds alphabet (added ++ [(matcher.pattern, action)]) where
  entries := by rw [Table.insert, List.map_append, holds.entries, List.map_singleton]
  candidates kind := by
    rw [candidates_insert, holds.candidates kind, Table.insert, List.flatMap_append,
      List.flatMap_singleton]
  compiled := by
    rw [Table.insert, List.forall_mem_append, List.forall_mem_singleton]
    exact ⟨holds.compiled, compiled⟩
  registrable := by
    rw [Table.insert, List.forall_mem_append, List.forall_mem_singleton]
    exact ⟨holds.registrable, registrable⟩

theorem find?_eq_some_iff (holds : table.Holds alphabet added) {entry : Entry Action}
    (member : entry ∈ table.entries) {cursor : Cursor} {found : Match} :
    entry.matcher.find? alphabet none cursor = some found ↔
      Pattern.Reads FirstCut none entry.matcher.pattern cursor found :=
  ((holds.compiled entry member).stands rfl).find?_eq_some_iff

/-- An entry matches what its pattern matches when it is compiled on demand, with any alphabet. -/
theorem findLazily_eq (holds : table.Holds alphabet added) {entry : Entry Action}
    (member : entry ∈ table.entries) (cursor : Cursor) (other : Alphabet) :
    ∃ final, entry.matcher.pattern.findLazily other none cursor
      = .ok (entry.matcher.find? alphabet none cursor, final) := by
  have closed := (holds.registrable entry member).2
  have outermost : ∀ around ∈ (none : Option Pattern), around.Closed := by simp
  obtain ⟨result, final, onDemand, reads⟩ :=
    Pattern.findLazilyIn_reads cursor.focus cursor.above other closed outermost
  have same : result = entry.matcher.find? alphabet none cursor :=
    Option.ext fun found => (reads found).trans (holds.find?_eq_some_iff member).symm
  rw [same] at onDemand
  exact ⟨final, onDemand⟩

theorem find?_of_extends (holds : table.Holds alphabet added) {entry : Entry Action}
    (member : entry ∈ table.entries) {grown : Alphabet} (extends_ : alphabet.Extends grown)
    (cursor : Cursor) :
    entry.matcher.find? grown none cursor = entry.matcher.find? alphabet none cursor :=
  Option.ext fun _ => ((holds.of_extends extends_).find?_eq_some_iff member).trans
    (holds.find?_eq_some_iff member).symm

/-- Looking through the entries that name the kind of a node misses no entry that matches it. -/
theorem claim?_eq (holds : table.Holds alphabet added) (cursor : Cursor) :
    table.claim? alphabet cursor = table.firstClaim? alphabet cursor := by
  rw [claim?, firstClaim?, holds.candidates]
  apply findSome?_flatMap_replicate
  intro entry member unnamed
  rw [Option.map_eq_none_iff, Option.eq_none_iff_forall_ne_some]
  intro found isFound
  -- No entry is for nodes of any kind, so one that accepts the node names its kind.
  have accepts := ((holds.find?_eq_some_iff member).mp isFound).accepts
  rw [List.count_eq_zero] at unnamed
  have named := (holds.registrable entry member).1
  simp [Head.accepts, unnamed, named] at accepts

/-- Kinds that are added later change no claim. -/
theorem claim?_of_extends (holds : table.Holds alphabet added) {grown : Alphabet}
    (extends_ : alphabet.Extends grown) (cursor : Cursor) :
    table.claim? grown cursor = table.claim? alphabet cursor := by
  rw [holds.claim?_eq, (holds.of_extends extends_).claim?_eq, firstClaim?, firstClaim?,
    ← List.head?_filterMap, ← List.head?_filterMap]
  refine congrArg List.head? (List.filterMap_congr fun entry member => ?_)
  rw [holds.find?_of_extends member extends_]

end Holds

end Table

/-! ### Tables that share an alphabet -/

/-- Tables, by number, and the alphabet that they share. -/
structure Tables (Action : Type) where
  alphabet : Alphabet
  table : Nat → Table Action

namespace Tables

variable {Action : Type}

/-- No table has any patterns yet. -/
def start (alphabet : Alphabet) : Tables Action := ⟨alphabet, fun _ => .empty⟩

/-- Carry out a registration with one of the tables. The kinds that were added to the alphabet stay in
it when the registration is refused. -/
def register (tables : Tables Action) (number : Nat) (registration : Registration Action) :
    Except PatternError Unit × Tables Action :=
  match registration.carryOut (tables.table number) tables.alphabet with
  | (.error error, alphabet) => (.error error, { tables with alphabet })
  | (.ok table, alphabet) => (.ok (), ⟨alphabet, Function.update tables.table number table⟩)

/-- Carry out registrations one after another, each with the table of a number. -/
def registerAll (tables : Tables Action) (calls : List (Nat × Registration Action)) :
    Tables Action :=
  calls.foldl (fun tables call => (tables.register call.1 call.2).2) tables

/-- The patterns and actions that registrations add to the table of a number. -/
def added (number : Nat) (calls : List (Nat × Registration Action)) :
    List (Pattern × Option Action) :=
  calls.filterMap fun call => if call.1 = number then call.2.accepted? else none

/-- A registration adds its pattern to its table if it is accepted, and nothing to any table if not. -/
theorem register_cases (tables : Tables Action) (number : Nat) (registration : Registration Action) :
    (∃ matcher grown, tables.register number registration
        = (.ok (), ⟨grown, Function.update tables.table number
            ((tables.table number).insert ⟨matcher, registration.action⟩)⟩) ∧
      tables.alphabet.Extends grown ∧ matcher.Compiled grown ∧ matcher.pattern.Registrable ∧
      registration.accepted? = some (matcher.pattern, registration.action)) ∨
    (∃ error grown, tables.register number registration
        = (.error error, { tables with alphabet := grown }) ∧
      tables.alphabet.Extends grown ∧ registration.Refused error ∧
      registration.accepted? = none) := by
  unfold register
  obtain ⟨matcher, grown, registered, accepted⟩ | ⟨error, grown, fails, refused⟩ :=
    registration.carryOut_cases (tables.table number) tables.alphabet
  · exact .inl ⟨matcher, grown, by rw [registered], accepted⟩
  · exact .inr ⟨error, grown, by rw [fails], refused⟩

theorem register_holds {tables : Tables Action} {held : Nat → List (Pattern × Option Action)}
    (holds : ∀ number, (tables.table number).Holds tables.alphabet (held number)) (number : Nat)
    (registration : Registration Action) (other : Nat) :
    ((tables.register number registration).2.table other).Holds
      (tables.register number registration).2.alphabet
      (held other ++ added other [(number, registration)]) := by
  unfold added
  obtain ⟨matcher, grown, registered, extends_, compiled, registrable, accepted⟩ |
      ⟨error, grown, fails, extends_, _, accepted⟩ := tables.register_cases number registration
  · rw [registered]
    dsimp only
    by_cases same : other = number
    · subst same
      simpa [accepted] using ((holds other).of_extends extends_).insert compiled registrable _
    · simpa [same, eq_comm] using (holds other).of_extends extends_
  · rw [fails]
    simpa [accepted] using (holds other).of_extends extends_

theorem registerAll_holds_from {tables : Tables Action}
    {held : Nat → List (Pattern × Option Action)}
    (holds : ∀ number, (tables.table number).Holds tables.alphabet (held number))
    (calls : List (Nat × Registration Action)) (number : Nat) :
    ((tables.registerAll calls).table number).Holds (tables.registerAll calls).alphabet
      (held number ++ added number calls) := by
  induction calls generalizing tables held with
  | nil => simpa [registerAll, added] using holds number
  | cons call rest ih =>
      have later := ih (register_holds holds call.1 call.2)
      rw [List.append_assoc] at later
      have split : added number (call :: rest) = added number [call] ++ added number rest :=
        List.filterMap_append (l := [call])
      rw [split]
      exact later

/-- After any registrations a table holds what the accepted ones among its own add. -/
theorem registerAll_holds (alphabet : Alphabet) (calls : List (Nat × Registration Action))
    (number : Nat) :
    (((start alphabet).registerAll calls).table number).Holds
      ((start alphabet).registerAll calls).alphabet (added number calls) := by
  let tables : Tables Action := start alphabet
  have nothing : ∀ other, (tables.table other).Holds tables.alphabet [] :=
    fun _ => Table.holds_empty alphabet
  exact registerAll_holds_from nothing calls number

theorem register_eq_ok_iff (tables : Tables Action) (number : Nat)
    (registration : Registration Action) :
    (tables.register number registration).1 = .ok () ↔ registration.accepted?.isSome = true := by
  obtain ⟨matcher, grown, registered, _, _, _, accepted⟩ |
      ⟨error, grown, fails, _, _, accepted⟩ := tables.register_cases number registration
  · simp [registered, accepted]
  · simp [fails, accepted]

/-! ### Claims -/

/-- A table claims a node by the first of its entries, in the order of the accepted registrations, whose
pattern matches the node when it is matched alone, and with that match. That only the entries for the
kind of the node are tried hides none: they are the entries that name the kind, in the same order, each
as often as it names the kind. -/
theorem registerAll_claims_first (alphabet : Alphabet) (calls : List (Nat × Registration Action))
    (number : Nat) :
    let tables := (start alphabet).registerAll calls
    let table := tables.table number
    (∀ registration, (tables.register number registration).1 = .ok () ↔
      registration.accepted?.isSome = true) ∧
    table.entries.map (fun entry => (entry.matcher.pattern, entry.action)) = added number calls ∧
    (∀ kind, table.candidates kind = table.entries.flatMap fun entry =>
      List.replicate (entry.matcher.pattern.head.kinds.count kind) entry) ∧
    ∀ cursor : Cursor,
      (∀ entry ∈ table.entries, ∀ other, ∃ final,
        entry.matcher.pattern.findLazily other none cursor
          = .ok (entry.matcher.find? tables.alphabet none cursor, final)) ∧
      table.claim? tables.alphabet cursor = table.firstClaim? tables.alphabet cursor ∧
      (table.claim? tables.alphabet cursor = none ↔
        ∀ entry ∈ table.entries, entry.matcher.find? tables.alphabet none cursor = none) := by
  intro tables table
  have holds : table.Holds tables.alphabet (added number calls) :=
    registerAll_holds alphabet calls number
  refine ⟨tables.register_eq_ok_iff number, holds.entries, holds.candidates, fun cursor => ?_⟩
  have first := holds.claim?_eq cursor
  refine ⟨fun entry member => holds.findLazily_eq member cursor, first, ?_⟩
  rw [first, Table.firstClaim?, List.findSome?_eq_none_iff]
  simp only [Option.map_eq_none_iff]

end Tables

/-! ### Refused registrations -/

/-- Two tables, each with its alphabet, that nothing asked of them can tell apart. -/
structure Table.SameAnswers {Action : Type} (table : Table Action) (alphabet : Alphabet)
    (other : Table Action) (otherAlphabet : Alphabet) : Prop where
  size : table.size = other.size
  entries : table.entries = other.entries
  kinds : table.kinds = other.kinds
  candidates : ∀ kind, table.candidates kind = other.candidates kind
  describe : table.describe = other.describe
  claim : ∀ cursor, table.claim? alphabet cursor = other.claim? otherAlphabet cursor
  dispatch : ∀ {m : Type → Type} [Monad m] (bytes : List UInt8)
    (run : Action → Cursor → List Capture → m Unit) (cursor : Cursor),
    table.dispatch alphabet bytes run cursor = other.dispatch otherAlphabet bytes run cursor

theorem Table.Holds.sameAnswers {Action : Type} {table : Table Action} {alphabet grown : Alphabet}
    {added : List (Pattern × Option Action)} (holds : table.Holds alphabet added)
    (extends_ : alphabet.Extends grown) : table.SameAnswers grown table alphabet where
  size := rfl
  entries := rfl
  kinds := rfl
  candidates _ := rfl
  describe := rfl
  claim := holds.claim?_of_extends extends_
  dispatch bytes run cursor := by
    unfold Table.dispatch
    rw [holds.claim?_of_extends extends_]

namespace Tables

variable {Action : Type}

/-- A registration that is refused, at whatever point of it, leaves every table that shares the alphabet
as it was, although kinds of the refused pattern stay in the alphabet. -/
theorem register_refused_unnoticed (alphabet : Alphabet) (calls : List (Nat × Registration Action))
    (number : Nat) (registration : Registration Action) {error : PatternError}
    (refused : (((start alphabet).registerAll calls).register number registration).1
      = .error error) :
    let before := (start alphabet).registerAll calls
    let after := (before.register number registration).2
    registration.Refused error ∧ before.alphabet.Extends after.alphabet ∧
      ∀ other, (after.table other).SameAnswers after.alphabet
        (before.table other) before.alphabet := by
  intro before after
  have holds := fun other => registerAll_holds alphabet calls other
  obtain ⟨matcher, grown, registered, _⟩ | ⟨fault, grown, fails, extends_, because, _⟩ :=
    before.register_cases number registration
  · rw [registered] at refused
    cases refused
  · rw [fails] at refused
    cases refused
    have isAfter : after = { before with alphabet := grown } := congrArg Prod.snd fails
    rw [isAfter]
    exact ⟨because, extends_, fun other => (holds other).sameAnswers extends_⟩

/-- A pattern below which a child list ends with an alternative. -/
def alternativeBelow : Pattern :=
  .node ⟨["z"], .one, false⟩
    [.node ⟨["q"], .one, false⟩ [.node ⟨["a"], .alternative, false⟩ []]]

/-- A pattern that is refused for another table gives a code of its own to the kind of a node, which the
first table still claims by a child of any kind. -/
theorem register_refused_unnoticed_newKinds :
    let before : Tables Unit :=
      (start .empty).registerAll [(0, ⟨.built Pattern.nestedThenAny, some ()⟩)]
    let after := (before.register 1 ⟨.built alternativeBelow, none⟩).2
    before.alphabet.code "q" = Alphabet.otherCode ∧ after.alphabet.code "q" ≠ Alphabet.otherCode ∧
      ∃ claim, (after.table 0).claim? after.alphabet Pattern.nestedThenOther = some claim ∧
        (before.table 0).claim? before.alphabet Pattern.nestedThenOther = some claim := by
  intro before after
  obtain ⟨_, _, same⟩ := register_refused_unnoticed .empty
    [(0, ⟨.built Pattern.nestedThenAny, some ()⟩)] 1 ⟨.built alternativeBelow, none⟩
    (rfl : (before.register 1 ⟨.built alternativeBelow, none⟩).1
      = .error (.mk (.danglingAlternative "q") "(q\n (a!))"))
  refine ⟨rfl, by decide, ?_⟩
  have claims := (same 0).claim Pattern.nestedThenOther
  have claimed : ((after.table 0).claim? after.alphabet Pattern.nestedThenOther).isSome = true := by
    decide +kernel
  obtain ⟨claim, isClaim⟩ := Option.isSome_iff_exists.mp claimed
  exact ⟨claim, isClaim, claims.symm.trans isClaim⟩

end Tables

end HeaderBindings
