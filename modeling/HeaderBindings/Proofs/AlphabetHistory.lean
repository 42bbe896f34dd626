/-
Module: HeaderBindings.Proofs.AlphabetHistory
Purpose: What a pattern finds does not depend on which kinds had codes when it was compiled, nor on those
  added since, nor on when its shapes are compiled.
Main exports: Alphabet.Later, Alphabet.Later.extends, Pattern.findLazilyIn_reads,
  Pattern.Closed.compile_stands, Pattern.find_of_any_history
-/
import HeaderBindings.Proofs.NodeReadings
import HeaderBindings.Table

namespace HeaderBindings

/-! ### What happens to an alphabet -/

namespace Pattern

mutual

/-- A compilation adds kinds, whether it succeeds or not. -/
theorem compile_extends : ∀ (pattern : Pattern) (alphabet : Alphabet),
    alphabet.Extends (pattern.compile alphabet).2
  | node head children, alphabet => by
      have named := (alphabet.addAll_extends head.kinds).trans (addKinds_extends _ children)
      unfold compile
      dsimp only
      cases regex? (addKinds (alphabet.addAll head.kinds) children) children with
      | none => exact named
      | some regex =>
          have below := named.trans (compileList_extends children _)
          dsimp only
          generalize compileList (addKinds (alphabet.addAll head.kinds) children) children
            = compiled at below
          obtain ⟨matchers | error, final⟩ := compiled
          · exact below
          · exact below

theorem compileList_extends : ∀ (patterns : List Pattern) (alphabet : Alphabet),
    alphabet.Extends (compileList alphabet patterns).2
  | [], alphabet => .refl alphabet
  | first :: rest, alphabet => by
      have own := compile_extends first alphabet
      unfold compileList
      generalize compile alphabet first = compiled at own
      obtain ⟨error | matcher, middle⟩ := compiled
      · exact own
      · have more := own.trans (compileList_extends rest middle)
        dsimp only at more ⊢
        generalize compileList middle rest = others at more
        obtain ⟨error | matchers, final⟩ := others
        · exact more
        · exact more

end

end Pattern

namespace Alphabet

/-- The alphabets that one becomes when kinds are added to it and patterns are compiled or registered
against it, in any order; the patterns need not compile, nor the texts spell any. -/
inductive Later (start : Alphabet) : Alphabet → Prop where
  | same : Later start start
  | added {alphabet : Alphabet} (later : Later start alphabet) (kind : String) :
      Later start (alphabet.add kind)
  | compiled {alphabet : Alphabet} (later : Later start alphabet) (pattern : Pattern) :
      Later start (pattern.compile alphabet).2
  | registered {Action : Type} {alphabet : Alphabet} (later : Later start alphabet)
      (table : Table Action) (pattern : Pattern) (action : Option Action) :
      Later start (table.register alphabet pattern action).2
  | read {Action : Type} {alphabet : Alphabet} (later : Later start alphabet)
      (table : Table Action) (text : String) (fragments : Pattern.Fragments)
      (action : Option Action) :
      Later start (table.registerText alphabet text fragments action).2

end Alphabet

theorem Table.register_extends {Action : Type} (table : Table Action) (alphabet : Alphabet)
    (pattern : Pattern) (action : Option Action) :
    alphabet.Extends (table.register alphabet pattern action).2 := by
  have compiles := pattern.compile_extends alphabet
  unfold register
  split
  · exact .refl alphabet
  · generalize pattern.compile alphabet = compiled at compiles
    obtain ⟨error | matcher, extended⟩ := compiled
    · exact compiles
    · exact compiles

theorem Alphabet.Later.extends {start alphabet : Alphabet} (later : start.Later alphabet) :
    start.Extends alphabet := by
  induction later with
  | same => exact .refl start
  | added _ kind ih => exact ih.trans (add_extends _ kind)
  | compiled _ pattern ih => exact ih.trans (pattern.compile_extends _)
  | registered _ table pattern action ih => exact ih.trans (table.register_extends _ pattern action)
  | @read _ alphabet _ table text fragments action ih =>
      unfold Table.registerText
      cases Pattern.parse text fragments with
      | error error => exact ih
      | ok pattern => exact ih.trans (table.register_extends alphabet pattern action)

/-! ### Shapes compiled on demand -/

namespace Pattern

open Cursor

theorem Closed.shape {pattern : Pattern} {enclosing : Option Pattern} (closed : pattern.Closed)
    (aroundClosed : ∀ around ∈ enclosing, around.Closed) : (pattern.shape enclosing).Closed := by
  unfold Pattern.shape
  split
  · cases enclosing with
    | none => exact closed
    | some around => exact aroundClosed around rfl
  · exact closed

mutual

/-- Whatever kinds have codes, matching that compiles each shape when a node is matched against its
children finds the reading in which all cuts are the first ones. -/
theorem findLazilyIn_reads : ∀ (tree : Tree) (above : List Frame) {pattern : Pattern}
    {enclosing : Option Pattern} (alphabet : Alphabet), pattern.Closed →
    (∀ around ∈ enclosing, around.Closed) →
    ∃ result final, findLazilyIn alphabet above pattern enclosing tree = .ok (result, final) ∧
      ∀ found, result = some found ↔ Reads FirstCut enclosing pattern ⟨tree, above⟩ found
  | .node label trees, above, pattern, enclosing, alphabet, closed, aroundClosed => by
      unfold findLazilyIn
      cases accepted : pattern.head.accepts label.kind with
      | false =>
          refine ⟨none, alphabet, by simp, fun found => ?_⟩
          have rejects : ¬ Reads FirstCut enclosing pattern ⟨.node label trees, above⟩ found := by
            intro reads
            have accepts : pattern.head.accepts label.kind = true := reads.accepts
            rw [accepted] at accepts
            cases accepts
          simp [rejects]
      | true =>
          have accepts : pattern.head.accepts (kind ⟨.node label trees, above⟩) = true := accepted
          simp only [Bool.not_true, Bool.false_eq_true, if_false, List.isEmpty_iff]
          by_cases childless : (pattern.shape enclosing).children = []
          · rw [if_pos childless]
            refine ⟨_, alphabet, rfl, fun found => ?_⟩
            rw [reads_iff_of_childless accepts childless, Option.some.injEq, eq_comm]
          · rw [if_neg childless]
            have shapeClosed := closed.shape aroundClosed
            obtain ⟨matcher, extended, compiles, _, compiled, compiledFrom⟩ :=
              compile_closed (pattern.shape enclosing) alphabet shapeClosed
            have kinds := map_kind_named ⟨.node label trees, above⟩
            rw [Tree.children] at kinds
            rw [compiles, ← kinds]
            dsimp only
            cases isFound : matcher.regex.spans?
                (extended.encode ((named ⟨.node label trees, above⟩).map kind)) with
            | none =>
                refine ⟨none, extended, rfl, fun found => ?_⟩
                have none_ := compiled.not_reads compiledFrom childless isFound found
                simp [none_]
            | some spans =>
                obtain ⟨same, readsIff⟩ := compiled.reads_iff compiledFrom accepts childless isFound
                have inShape : ∀ part ∈ assigned (pattern.shape enclosing).children spans,
                    part.Closed :=
                  fun part member => shapeClosed.child (mem_of_mem_assigned member)
                obtain ⟨matches?, final, all, reads⟩ := findAllLazily_reads trees
                  (.node label trees) above 0 extended shapeClosed inShape same
                dsimp only
                rw [all]
                refine ⟨matches?.map (.node ⟨.node label trees, above⟩ pattern), final, rfl,
                  fun found => ?_⟩
                rw [readsIff found, Option.map_eq_some_iff]
                refine exists_congr fun below => and_congr ?_ eq_comm
                exact reads below

theorem findAllLazily_reads : ∀ (trees : List Tree) (parent : Tree) (above : List Frame)
    (index : Nat) {shape : Pattern} {patterns : List Pattern} (alphabet : Alphabet), shape.Closed →
    (∀ part ∈ patterns, part.Closed) →
    patterns.length = (namedFrom parent above index trees).length →
    ∃ result final,
      findAllLazily alphabet parent above shape patterns index trees = .ok (result, final) ∧
      ∀ found, result = some found ↔
        ReadsAll FirstCut shape patterns (namedFrom parent above index trees) found
  | [], parent, above, index, shape, patterns, alphabet, closed, partsClosed, same => by
      obtain rfl : patterns = [] := List.length_eq_zero_iff.mp same
      have nobody : namedFrom parent above index [] = [] := rfl
      refine ⟨some [], alphabet, by rw [findAllLazily], fun found => ?_⟩
      rw [nobody, readsAll_nil_iff, Option.some.injEq, eq_comm]
  | tree :: rest, parent, above, index, shape, patterns, alphabet, closed, partsClosed, same => by
      rw [namedFrom_cons] at same ⊢
      unfold findAllLazily
      cases comment : tree.isComment with
      | true =>
          simp only [comment, if_true] at same ⊢
          exact findAllLazily_reads rest parent above (index + 1) alphabet closed partsClosed same
      | false =>
          simp only [comment, Bool.false_eq_true, if_false] at same ⊢
          cases patterns with
          | nil => cases same
          | cons part others =>
              rw [List.forall_mem_cons] at partsClosed
              have around : ∀ outer ∈ some shape, outer.Closed := by
                rintro _ ⟨⟩
                exact closed
              obtain ⟨one, middle, first, firstReads⟩ := findLazilyIn_reads tree
                (⟨parent, index⟩ :: above) alphabet partsClosed.1 around
              obtain ⟨more, final, later, laterReads⟩ := findAllLazily_reads rest parent above
                (index + 1) middle closed partsClosed.2 (Nat.succ.inj same)
              dsimp only
              rw [first]
              cases one with
              | none =>
                  refine ⟨none, middle, rfl, fun found => ?_⟩
                  rw [readsAll_cons_iff]
                  simp [← firstReads]
              | some match_ =>
                  refine ⟨more.map (match_ :: ·), final, by simp only [later], fun found => ?_⟩
                  rw [readsAll_cons_iff, Option.map_eq_some_iff]
                  simp only [← firstReads, ← laterReads]
                  constructor
                  · rintro ⟨matches_, isLater, rfl⟩
                    exact ⟨match_, matches_, rfl, isLater, rfl⟩
                  · rintro ⟨_, matches_, ⟨⟩, isLater, rfl⟩
                    exact ⟨matches_, isLater, rfl⟩

end

/-! ### Any history -/

/-- A closed pattern compiles against every alphabet, and what it compiles to serves with all later ones. -/
theorem Closed.compile_stands {pattern : Pattern} (closed : pattern.Closed) (earlier : Alphabet) :
    ∃ matcher compiledIn, pattern.compile earlier = (.ok matcher, compiledIn) ∧
      ∀ later, compiledIn.Later later → Matcher.Stands later none pattern none matcher := by
  obtain ⟨matcher, compiledIn, compiles, _, compiled, compiledFrom⟩ :=
    compile_closed pattern earlier closed
  refine ⟨matcher, compiledIn, compiles, ?_⟩
  intro later isLater
  exact (compiled.of_extends isLater.extends).stands compiledFrom

/-- A pattern finds the same match in a node, of the same nodes by the same patterns, whatever kinds had
codes when it was compiled, whatever happened to the alphabet afterwards, and also if its shapes are
only compiled on the way: the reading in which all cuts are the first ones, if there is one. -/
theorem find_of_any_history {pattern : Pattern} (closed : pattern.Closed) (cursor : Cursor) :
    ∃ result : Option Match,
      (∀ found, result = some found ↔ Reads FirstCut none pattern cursor found) ∧
      ∀ earlier : Alphabet,
        (∃ matcher compiledIn, pattern.compile earlier = (.ok matcher, compiledIn) ∧
          ∀ later, compiledIn.Later later → matcher.find? later none cursor = result) ∧
        ∃ final, pattern.findLazily earlier none cursor = .ok (result, final) := by
  have outermost : ∀ around ∈ (none : Option Pattern), around.Closed := by simp
  have onDemand := fun earlier =>
    findLazilyIn_reads cursor.focus cursor.above earlier closed outermost
  obtain ⟨result, _, _, reads⟩ := onDemand .empty
  refine ⟨result, reads, fun earlier => ⟨?_, ?_⟩⟩
  · obtain ⟨matcher, compiledIn, compiles, stands⟩ := closed.compile_stands earlier
    refine ⟨matcher, compiledIn, compiles, ?_⟩
    intro later isLater
    apply Option.ext
    intro found
    exact (stands later isLater).find?_eq_some_iff.trans (reads found).symm
  · obtain ⟨other, final, found, otherReads⟩ := onDemand earlier
    have same : other = result := Option.ext fun match_ => (otherReads match_).trans (reads match_).symm
    rw [same] at found
    exact ⟨final, found⟩

/-- A child with children of its own, and one of any kind. -/
def nestedThenAny : Pattern :=
  .node ⟨["x"], .one, false⟩
    [.node ⟨["y"], .one, false⟩ [.node ⟨["a"], .oneOrMore, false⟩ []],
      .node ⟨[], .zeroOrOne, false⟩ []]

/-- A node of a kind that the pattern does not name stands last. -/
def nestedThenOther : Cursor :=
  .root (.node ⟨"x", 0, 3, none⟩
    [.node ⟨"y", 0, 2, none⟩ [.node ⟨"a", 0, 1, none⟩ [], .node ⟨"a", 1, 2, none⟩ []],
      .node ⟨"q", 2, 3, none⟩ []])

/-- The last kind has the code of all others when the pattern is compiled, and its own one when the node
is matched; or it had the first code of all. -/
theorem find_of_any_history_codeOfItsOwn :
    nestedThenAny.Closed ∧ ∃ found matcher compiledIn other otherIn final,
      nestedThenAny.compile .empty = (.ok matcher, compiledIn) ∧
      compiledIn.code "q" = Alphabet.otherCode ∧ (compiledIn.add "q").code "q" ≠ Alphabet.otherCode ∧
      matcher.find? (compiledIn.add "q") none nestedThenOther = some found ∧
      nestedThenAny.compile ⟨["q"]⟩ = (.ok other, otherIn) ∧
      other.find? otherIn none nestedThenOther = some found ∧
      nestedThenAny.findLazily .empty none nestedThenOther = .ok (some found, final) := by
  have closed : nestedThenAny.Closed := by
    unfold Closed
    decide
  obtain ⟨result, _, histories⟩ := find_of_any_history closed nestedThenOther
  obtain ⟨⟨matcher, compiledIn, compiles, finds⟩, final, onDemand⟩ := histories .empty
  obtain ⟨⟨other, otherIn, otherCompiles, otherFinds⟩, _⟩ := histories ⟨["q"]⟩
  obtain ⟨found, rfl⟩ : ∃ found, result = some found := by
    cases onDemand
    exact ⟨_, rfl⟩
  have grown : compiledIn = ⟨["x", "y", "a"]⟩ := by
    cases compiles
    rfl
  refine ⟨closed, found, matcher, compiledIn, other, otherIn, final, compiles, ?_, ?_,
    finds _ (.added .same "q"), otherCompiles, otherFinds _ .same, onDemand⟩
  · rw [grown]
    rfl
  · rw [grown]
    decide

end Pattern

end HeaderBindings
