/-
Module: HeaderBindings.Proofs.Compilation
Purpose: Patterns that are read from text or composed compile, and what their regular expressions find
  is the declarative reading of their children.
Main exports: Pattern.Closed, Pattern.Built, Matcher.Compiled, Matcher.Compiled.eq_compiledIn,
  Pattern.compile_closed, Pattern.Built.compiled_reading
-/
import HeaderBindings.Pattern.Compose
import HeaderBindings.Pattern.Parser
import HeaderBindings.Proofs.ChildCut

namespace HeaderBindings

namespace Pattern

/-! ### Closed patterns

No child list in a closed pattern ends with an alternative that has no sibling to share with. -/

/-- A pattern in which no child list ends with an alternative. -/
def Closed (pattern : Pattern) : Prop :=
  ∀ below ∈ pattern.descendants, endsOpen below.children = false

theorem mem_descendantsOfList {below : Pattern} {patterns : List Pattern} :
    below ∈ descendantsOfList patterns ↔ ∃ pattern ∈ patterns, below ∈ pattern.descendants := by
  induction patterns with
  | nil => simp [descendantsOfList]
  | cons first rest ih => simp [descendantsOfList, ih]

theorem closed_node_iff {head : Head} {children : List Pattern} :
    (node head children).Closed ↔
      endsOpen children = false ∧ ∀ child ∈ children, child.Closed := by
  unfold Closed
  simp only [descendants, List.forall_mem_cons, mem_descendantsOfList, Pattern.children]
  constructor
  · rintro ⟨top, below⟩
    exact ⟨top, fun child member pattern inside => below pattern ⟨child, member, inside⟩⟩
  · rintro ⟨top, below⟩
    refine ⟨top, ?_⟩
    rintro pattern ⟨child, member, inside⟩
    exact below child member pattern inside

theorem Closed.child {pattern child : Pattern} (closed : pattern.Closed)
    (member : child ∈ pattern.children) : child.Closed := by
  cases pattern with
  | node head children => exact (closed_node_iff.mp closed).2 child member

/-- The reader keeps every sibling it has read closed: a child list is checked when its closing
parenthesis comes, and what stands before an unclosed pattern was checked earlier. -/
theorem closed_of_readSequence {fragments : Fragments}
    (fragmentsClosed : ∀ fragment ∈ fragments, ∀ pattern ∈ fragment.2, pattern.Closed)
    {siblings : List Pattern} {outer : List Unclosed} {tokens : List Token}
    {result : List Pattern} (siblingsClosed : ∀ pattern ∈ siblings, pattern.Closed)
    (outerClosed : ∀ unclosed ∈ outer, ∀ pattern ∈ unclosed.before, pattern.Closed)
    (read : readSequence fragments siblings outer tokens = .ok result) :
    ∀ pattern ∈ result, pattern.Closed := by
  fun_induction readSequence fragments siblings outer tokens with
  | case1 siblings =>
      cases read
      exact siblingsClosed
  | case2 => cases read
  | case3 => cases read
  | case4 => cases read
  | case5 siblings unclosed outer rest closable ih =>
      rw [List.forall_mem_cons] at outerClosed
      refine ih ?_ outerClosed.2 read
      intro pattern member
      rcases List.mem_append.mp member with before | last
      · exact outerClosed.1 pattern before
      · rw [List.mem_singleton.mp last, closed_node_iff]
        exact ⟨by simpa using closable, siblingsClosed⟩
  | case6 siblings outer word rest reference ih =>
      exact ih (by simp) (List.forall_mem_cons.mpr ⟨siblingsClosed, outerClosed⟩) read
  | case7 siblings outer word rest _ head _ ih =>
      exact ih (by simp) (List.forall_mem_cons.mpr ⟨siblingsClosed, outerClosed⟩) read
  | case8 => cases read
  | case9 siblings outer rest _ ih =>
      exact ih (by simp) (List.forall_mem_cons.mpr ⟨siblingsClosed, outerClosed⟩) read
  | case10 => cases read
  | case11 siblings outer word rest name _ patterns found ih =>
      refine ih ?_ outerClosed read
      intro pattern member
      rcases List.mem_append.mp member with before | spliced
      · exact siblingsClosed pattern before
      · obtain ⟨earlier, later, parts, _⟩ := List.lookup_eq_some_iff.mp found
        have isFragment : (String.ofList name, patterns) ∈ fragments := by
          rw [parts]
          simp
        exact fragmentsClosed _ isFragment pattern spliced
  | case12 => cases read

theorem closed_of_parseFragment {text : String} {fragments : Fragments} {patterns : List Pattern}
    (fragmentsClosed : ∀ fragment ∈ fragments, ∀ pattern ∈ fragment.2, pattern.Closed)
    (parsed : parseFragment text fragments = .ok patterns) :
    ∀ pattern ∈ patterns, pattern.Closed := by
  unfold parseFragment at parsed
  split at parsed
  · cases parsed
  · cases read : readSequence fragments [] [] (tokens text.toList) with
    | error fault =>
        rw [read] at parsed
        cases parsed
    | ok result =>
        rw [read] at parsed
        cases parsed
        exact closed_of_readSequence fragmentsClosed (by simp) (by simp) read

theorem parseFragment_of_parse {text : String} {fragments : Fragments} {pattern : Pattern}
    (parsed : parse text fragments = .ok pattern) :
    parseFragment text fragments = .ok [pattern] := by
  unfold parse at parsed
  split at parsed
  · cases parsed
  · rename_i single
    cases parsed
    exact single
  · cases parsed

/-- Patterns that are read from text, with fragments that were read before, or composed of such
patterns. -/
inductive Built : Pattern → Prop where
  | parsed {text : String} {fragments : Fragments} {pattern : Pattern}
      (fragmentsBuilt : ∀ fragment ∈ fragments, ∀ part ∈ fragment.2, Built part)
      (parsed : parse text fragments = .ok pattern) : Built pattern
  | inFragment {text : String} {fragments : Fragments} {patterns : List Pattern}
      {pattern : Pattern}
      (fragmentsBuilt : ∀ fragment ∈ fragments, ∀ part ∈ fragment.2, Built part)
      (parsed : parseFragment text fragments = .ok patterns) (member : pattern ∈ patterns) :
      Built pattern
  | composed {name : String} {parts : List (List Pattern)} {quantifier : Quantifier}
      {pattern : Pattern} (partsBuilt : ∀ part ∈ parts, ∀ child ∈ part, Built child)
      (composed : compose name parts quantifier = .ok pattern) : Built pattern

theorem Built.closed {pattern : Pattern} (built : Built pattern) : pattern.Closed := by
  induction built with
  | parsed _ parsed fragmentsClosed =>
      exact closed_of_parseFragment fragmentsClosed (parseFragment_of_parse parsed) _ (by simp)
  | inFragment _ parsed member fragmentsClosed =>
      exact closed_of_parseFragment fragmentsClosed parsed _ member
  | @composed name parts quantifier pattern _ composed partsClosed =>
      unfold compose at composed
      dsimp only at composed
      split at composed
      · cases composed
      · split at composed
        · cases composed
        · rename_i closable
          cases composed
          refine closed_node_iff.mpr ⟨by simpa [Pattern.children] using closable, ?_⟩
          intro child member
          obtain ⟨part, isPart, inPart⟩ := List.mem_flatten.mp member
          exact partsClosed part isPart child inPart

/-! ### The regular expression of a child list -/

theorem endsOpen_cons_cons (first second : Pattern) (rest : List Pattern) :
    endsOpen (first :: second :: rest) = endsOpen (second :: rest) := by
  simp [endsOpen, List.getLast?_cons_cons]

theorem childItems_eq_nil_iff {children : List Pattern} : childItems children = [] ↔ children = [] := by
  constructor
  · intro empty
    rw [← flatten_childItems children, empty]
    rfl
  · rintro rfl
    rfl

/-- A run of alternatives in front of items joins the first of them. -/
def joinRun (run : List Pattern) : List (List Pattern) → List (List Pattern)
  | [] => []
  | item :: items => (run ++ item) :: items

theorem itemsAfter?_cons (alphabet : Alphabet) (run : List Group) (child : Pattern)
    (rest : List Pattern) :
    itemsAfter? alphabet run (child :: rest) =
      if child.head.quantifier == .alternative then
        itemsAfter? alphabet (run ++ [child.group alphabet]) rest
      else (itemsAfter? alphabet [] rest).map ((run ++ [child.group alphabet]) :: ·) := by
  cases run <;> rfl

theorem itemsAfter?_eq (alphabet : Alphabet) (run : List Pattern) {children : List Pattern}
    (closable : endsOpen children = false) (shared : children = [] → run = []) :
    itemsAfter? alphabet (run.map (group alphabet)) children
      = some (Regex.ofItems alphabet (joinRun run (childItems children))) := by
  induction children generalizing run with
  | nil =>
      rw [shared rfl]
      rfl
  | cons child rest ih =>
      have restClosable : endsOpen rest = false := by
        cases rest with
        | nil => rfl
        | cons second rest => rwa [endsOpen_cons_cons] at closable
      rw [itemsAfter?_cons, childItems]
      split
      · rename_i alternative
        have restNonempty : rest ≠ [] := by
          rintro rfl
          simp [endsOpen, alternative] at closable
        have joined := ih (run ++ [child]) restClosable (absurd · restNonempty)
        rw [List.map_append, List.map_singleton] at joined
        rw [joined]
        cases items : childItems rest with
        | nil => exact absurd (childItems_eq_nil_iff.mp items) restNonempty
        | cons item items => simp [joinRun]
      · have separate := ih [] restClosable (fun _ => rfl)
        rw [List.map_nil] at separate
        rw [separate]
        cases items : childItems rest with
        | nil => simp [joinRun, Regex.ofItems]
        | cons item items => simp [joinRun, Regex.ofItems]

theorem regex?_eq (alphabet : Alphabet) {children : List Pattern}
    (closable : endsOpen children = false) :
    regex? alphabet children = some (Regex.ofItems alphabet (childItems children)) := by
  have items := itemsAfter?_eq alphabet [] closable (fun _ => rfl)
  rw [List.map_nil] at items
  rw [regex?, items]
  cases childItems children <;> rfl

end Pattern

/-! ### Compiled patterns -/

/-- A compiled pattern that belongs to an alphabet: at every level its regular expression is that of
the children's items, whose kinds all have codes of their own. -/
inductive Matcher.Compiled (alphabet : Alphabet) : Matcher → Prop where
  | node {pattern : Pattern} {children : List Matcher}
      (named : Regex.Named alphabet (Pattern.childItems pattern.children))
      (paired : children.map Matcher.pattern = pattern.children)
      (below : ∀ child ∈ children, Compiled alphabet child) :
      Compiled alphabet
        (.node pattern (Regex.ofItems alphabet (Pattern.childItems pattern.children)) children)

theorem Regex.Named.of_extends {small large : Alphabet} {items : List (List Pattern)}
    (extends_ : small.Extends large) (named : Regex.Named small items) :
    Regex.Named large items := by
  intro item isItem child isChild kind isKind
  exact extends_.mem_kinds (named item isItem child isChild kind isKind)

theorem Regex.ofItems_of_extends {small large : Alphabet} {items : List (List Pattern)}
    (extends_ : small.Extends large) (named : Regex.Named small items) :
    Regex.ofItems large items = Regex.ofItems small items := by
  refine List.map_congr_left fun item isItem => List.map_congr_left fun child isChild => ?_
  unfold Pattern.group
  rw [Alphabet.encode_of_extends extends_ (named item isItem child isChild)]

/-- Kinds that are added later change nothing in a compiled pattern. -/
theorem Matcher.Compiled.of_extends {small large : Alphabet} {matcher : Matcher}
    (extends_ : small.Extends large) (compiled : matcher.Compiled small) :
    matcher.Compiled large := by
  induction compiled with
  | node named paired _ ih =>
      rw [← Regex.ofItems_of_extends extends_ named]
      exact .node (named.of_extends extends_) paired ih

namespace Pattern

mutual

/-- A pattern compiled against an alphabet that has its kinds. -/
def compiledIn (alphabet : Alphabet) : Pattern → Matcher
  | node head children =>
      .node (node head children) (Regex.ofItems alphabet (childItems children))
        (compiledInAll alphabet children)

/-- Patterns compiled against an alphabet that has their kinds. -/
def compiledInAll (alphabet : Alphabet) : List Pattern → List Matcher
  | [] => []
  | first :: rest => first.compiledIn alphabet :: compiledInAll alphabet rest

end

theorem compiledInAll_eq_map (alphabet : Alphabet) (patterns : List Pattern) :
    compiledInAll alphabet patterns = patterns.map (compiledIn alphabet) := by
  induction patterns with
  | nil => rfl
  | cons first rest ih => rw [compiledInAll, ih, List.map_cons]

end Pattern

/-- A compiled pattern is determined by the pattern and the alphabet that it belongs to. -/
theorem Matcher.Compiled.eq_compiledIn {alphabet : Alphabet} {matcher : Matcher}
    (compiled : matcher.Compiled alphabet) : matcher = matcher.pattern.compiledIn alphabet := by
  induction compiled with
  | @node pattern children _ paired _ ih =>
      have same : children = Pattern.compiledInAll alphabet pattern.children := by
        rw [Pattern.compiledInAll_eq_map, ← paired, List.map_map]
        exact (List.map_id' _).symm.trans (List.map_congr_left ih)
      cases pattern with
      | node head childPatterns => exact congrArg (Matcher.node _ _) same

namespace Pattern

theorem named_childItems (alphabet : Alphabet) (children : List Pattern) :
    Regex.Named (addKinds alphabet children) (childItems children) := by
  intro item isItem child isChild kind isKind
  exact mem_kinds_addKinds alphabet (mem_of_mem_childItems isChild isItem) isKind

mutual

/-- A closed pattern compiles against every alphabet. -/
theorem compile_closed : ∀ (pattern : Pattern) (alphabet : Alphabet), pattern.Closed →
    ∃ matcher final, pattern.compile alphabet = (.ok matcher, final) ∧
      alphabet.Extends final ∧ matcher.Compiled final ∧ matcher.pattern = pattern
  | node head children, alphabet, closed => by
      obtain ⟨closable, childrenClosed⟩ := closed_node_iff.mp closed
      have grown : alphabet.Extends (addKinds (alphabet.addAll head.kinds) children) :=
        (alphabet.addAll_extends head.kinds).trans (addKinds_extends _ children)
      obtain ⟨matchers, final, compiled, more, allCompiled, paired⟩ :=
        compileList_closed children (addKinds (alphabet.addAll head.kinds) children)
          childrenClosed
      have named := named_childItems (alphabet.addAll head.kinds) children
      let regex := Regex.ofItems (addKinds (alphabet.addAll head.kinds) children) (childItems children)
      refine ⟨.node (node head children) regex matchers, final, ?_, grown.trans more, ?_, rfl⟩
      · simp only [compile, regex?_eq _ closable, compiled, regex]
      · simp only [regex]
        rw [← Regex.ofItems_of_extends more named]
        refine .node ?_ paired allCompiled
        exact named.of_extends more

/-- Closed patterns compile one after another. -/
theorem compileList_closed : ∀ (patterns : List Pattern) (alphabet : Alphabet),
    (∀ pattern ∈ patterns, pattern.Closed) →
    ∃ matchers final, compileList alphabet patterns = (.ok matchers, final) ∧
      alphabet.Extends final ∧ (∀ matcher ∈ matchers, matcher.Compiled final) ∧
      matchers.map Matcher.pattern = patterns
  | [], alphabet, _ => ⟨[], alphabet, rfl, .refl alphabet, by simp, rfl⟩
  | first :: rest, alphabet, closed => by
      rw [List.forall_mem_cons] at closed
      obtain ⟨matcher, middle, compiledFirst, grown, firstCompiled, firstPattern⟩ :=
        compile_closed first alphabet closed.1
      obtain ⟨matchers, final, compiledRest, more, restCompiled, restPatterns⟩ :=
        compileList_closed rest middle closed.2
      refine ⟨matcher :: matchers, final, ?_, grown.trans more, ?_, ?_⟩
      · simp only [compileList, compiledFirst, compiledRest]
      · exact List.forall_mem_cons.mpr ⟨firstCompiled.of_extends more, restCompiled⟩
      · rw [List.map_cons, firstPattern, restPatterns]

end

end Pattern

namespace Matcher.Compiled

variable {alphabet : Alphabet} {matcher : Matcher}

theorem spans?_eq_some_iff (compiled : matcher.Compiled alphabet) (kinds : List String)
    (spans : List (Option Span)) :
    matcher.regex.spans? (alphabet.encode kinds) = some spans ↔
      ∃ shares, FirstCut (Pattern.childItems matcher.pattern.children) kinds shares ∧
        spans = groupSpans 0 (Pattern.childItems matcher.pattern.children) shares := by
  cases compiled with
  | node named _ _ => exact Regex.spans?_eq_some_iff named kinds spans

theorem isSome_spans?_iff (compiled : matcher.Compiled alphabet) (kinds : List String) :
    (matcher.regex.spans? (alphabet.encode kinds)).isSome = true ↔
      ∃ shares, Cut (Pattern.childItems matcher.pattern.children) kinds shares := by
  cases compiled with
  | node named _ _ => exact Regex.isSome_spans?_iff named kinds

end Matcher.Compiled

/-! ### The reading of a compiled child list -/

/-- A pattern that is read or composed compiles against every alphabet. However many kinds are added
afterwards, its regular expression matches the codes of kinds exactly if they can be cut among its
children, and then the spans of its groups, one group for each child, are those of the first cut: the
spans of the alternatives that consume lie side by side and cover all kinds, and the other
alternatives have none. -/
theorem Pattern.Built.compiled_reading {pattern : Pattern} (built : Built pattern)
    (alphabet : Alphabet) :
    ∃ matcher final, pattern.compile alphabet = (.ok matcher, final) ∧
      ∀ further kinds : List String,
        let found := matcher.regex.spans? ((final.addAll further).encode kinds)
        (found.isSome = true ↔ ∃ shares, Cut (childItems pattern.children) kinds shares) ∧
        ∀ spans, found = some spans →
          (∃ shares, FirstCut (childItems pattern.children) kinds shares ∧
            spans = groupSpans 0 (childItems pattern.children) shares) ∧
          spans.length = pattern.children.length ∧
          Consecutive 0 (spans.filterMap id) kinds.length := by
  obtain ⟨matcher, final, compiled, _, belongs, rfl⟩ :=
    compile_closed pattern alphabet built.closed
  refine ⟨matcher, final, compiled, ?_⟩
  intro further kinds
  have later := belongs.of_extends (final.addAll_extends further)
  refine ⟨later.isSome_spans?_iff kinds, ?_⟩
  intro spans found
  obtain ⟨shares, first, rfl⟩ := (later.spans?_eq_some_iff kinds spans).mp found
  refine ⟨⟨shares, first, rfl⟩, ?_, ?_⟩
  · rw [first.isCut.length_groupSpans, flatten_childItems]
  · simpa using first.isCut.consecutive_groupSpans 0

/-- Three alternatives, the last of them a run, before a child of any kind. -/
def Pattern.alternativesThenAny : Pattern :=
  .node ⟨["x"], .one, false⟩
    [.node ⟨["a"], .alternative, false⟩ [], .node ⟨["b", "c"], .alternative, false⟩ [],
      .node ⟨["c"], .oneOrMore, false⟩ [], .node ⟨[], .zeroOrOne, false⟩ []]

/-- The second alternative would take one `c` and leave two kinds for the last child, so the third
one takes both; the last child takes a kind that no pattern names. -/
theorem Pattern.Built.compiled_reading_alternativesThenAny :
    Built alternativesThenAny ∧ ∃ matcher final,
      alternativesThenAny.compile .empty = (.ok matcher, final) ∧
      ∃ shares, FirstCut (childItems alternativesThenAny.children) ["c", "c", "z"] shares ∧
        [none, none, some ⟨0, 2⟩, some ⟨2, 3⟩]
          = groupSpans 0 (childItems alternativesThenAny.children) shares := by
  have parsed : parse "(x (a!) (b|c!) (c+) (?))" [] = .ok alternativesThenAny := by rfl
  have built : Built alternativesThenAny := .parsed (by simp) parsed
  obtain ⟨matcher, final, compiled, reading⟩ := compiled_reading built .empty
  have found : matcher.regex.spans? ((final.addAll []).encode ["c", "c", "z"])
      = some [none, none, some ⟨0, 2⟩, some ⟨2, 3⟩] := by
    cases compiled
    rfl
  exact ⟨built, matcher, final, compiled, ((reading [] _).2 _ found).1⟩

end HeaderBindings
