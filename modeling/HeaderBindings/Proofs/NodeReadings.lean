/-
Module: HeaderBindings.Proofs.NodeReadings
Purpose: Which matches a pattern admits for a node, told by cuts of children among patterns alone, and
  that matching finds the one in which every cut is the first.
Main exports: takers, Pattern.Reads, Pattern.ReadsAll, Matcher.Stands.find?_eq_some_iff
-/
import Mathlib.Data.List.Forall2
import HeaderBindings.Proofs.FoundNodes

namespace HeaderBindings

/-! ### Who takes which child -/

/-- The pattern that takes each of the siblings in a cut, in order. -/
def takers : List (List Pattern) → List Share → List Pattern
  | item :: items, share :: shares =>
      (item[share.alternative]?.toList.flatMap fun child => List.replicate share.length child)
        ++ takers items shares
  | _, _ => []

theorem assigned_append {α : Type} {entries others : List α} {spans more : List (Option Span)}
    (same : entries.length = spans.length) :
    assigned (entries ++ others) (spans ++ more) = assigned entries spans ++ assigned others more := by
  induction entries generalizing spans with
  | nil =>
      obtain rfl : spans = [] := List.length_eq_zero_iff.mp same.symm
      rfl
  | cons first rest ih =>
      cases spans with
      | nil => cases same
      | cons span spans =>
          have shorter : rest.length = spans.length := Nat.succ.inj same
          cases span with
          | none => exact ih shorter
          | some span =>
              rw [List.cons_append, List.cons_append, assigned, ih shorter, assigned,
                List.append_assoc]

theorem map_assigned {α β : Type} (change : α → β) (entries : List α) (spans : List (Option Span)) :
    (assigned entries spans).map change = assigned (entries.map change) spans := by
  fun_induction assigned entries spans with
  | case1 first entries span spans ih => simp [assigned, ih]
  | case2 first entries spans ih => simpa [assigned] using ih
  | case3 entries spans neither one =>
      cases entries with
      | nil => simp [assigned]
      | cons first entries =>
          cases spans with
          | nil => simp [assigned]
          | cons span spans =>
              cases span with
              | none => exact absurd rfl (one first entries spans rfl)
              | some span => exact absurd rfl (neither first entries span spans rfl)

theorem assigned_replicate_none {α : Type} (entries : List α) (count : Nat) :
    assigned entries (List.replicate count none) = [] := by
  induction entries generalizing count with
  | nil => cases count <;> rfl
  | cons first rest ih =>
      cases count with
      | zero => rfl
      | succ count => exact ih count

/-- Among entries of which one has a span, that one stands for every code in it. -/
theorem assigned_chosen {α : Type} {entries : List α} {index : Nat} {entry : α}
    (chosen : entries[index]? = some entry) (span : Span) :
    assigned entries (entries.mapIdx fun i _ => if i = index then some span else none)
      = List.replicate span.length entry := by
  obtain ⟨within, rfl⟩ := List.getElem?_eq_some_iff.mp chosen
  rw [mapIdx_chosen span within]
  conv_lhs => rw [← List.take_append_drop index entries]
  have front : (entries.take index).length = (List.replicate index (none : Option Span)).length := by
    simp [Nat.le_of_lt within]
  rw [assigned_append front, assigned_replicate_none, List.drop_eq_getElem_cons within,
    List.nil_append, assigned, assigned_replicate_none, List.append_nil]

namespace Cut

variable {items : List (List Pattern)} {kinds : List String} {shares : List Share}

theorem assigned_groupSpans (cut : Cut items kinds shares) (position : Nat) :
    assigned items.flatten (groupSpans position items shares) = takers items shares := by
  induction cut generalizing position with
  | done => rfl
  | @take item items index child segment rest shares chosen consumed others ih =>
      rw [groupSpans, List.flatten_cons, assigned_append (by simp), ih, takers,
        assigned_chosen chosen, chosen]
      simp [Span.length]

theorem length_takers (cut : Cut items kinds shares) :
    (takers items shares).length = kinds.length := by
  induction cut with
  | done => rfl
  | @take item items index child segment rest shares chosen consumed others ih =>
      simp [takers, chosen, ih]

theorem mem_takers {child : Pattern} (member : child ∈ takers items shares) :
    child ∈ items.flatten := by
  induction items generalizing shares with
  | nil => cases shares <;> cases member
  | cons item items ih =>
      cases shares with
      | nil => cases member
      | cons share shares =>
          rcases List.mem_append.mp member with own | later
          · obtain ⟨chosen, isChosen, inside⟩ := List.mem_flatMap.mp own
            rw [(List.mem_replicate.mp inside).2]
            exact List.mem_append_left _ (List.mem_of_getElem? (Option.mem_toList.mp isChosen))
          · exact List.mem_append_right _ (ih later)

/-- Every kind is accepted by the pattern that takes it. -/
theorem accepts_takers (cut : Cut items kinds shares) :
    List.Forall₂ (fun child kind => child.head.accepts kind = true) (takers items shares) kinds := by
  induction cut with
  | done => exact .nil
  | @take item items index child segment rest shares chosen consumed others ih =>
      rw [takers, chosen]
      refine List.rel_append (List.forall₂_iff_zip.mpr ⟨by simp, ?_⟩) ih
      intro taker kind member
      obtain ⟨isTaker, inSegment⟩ := List.of_mem_zip member
      obtain ⟨_, rfl⟩ : segment ≠ [] ∧ taker = child := by simpa using isTaker
      exact consumed.2 kind inSegment

end Cut

/-! ### Readings -/

namespace Pattern

/-- Which cuts of kinds among items count. -/
abbrev Cutting := List (List Pattern) → List String → List Share → Prop

mutual

/-- A match reads a node as a pattern inside an enclosing shape, if there is one: the pattern accepts
the node, and if the shape has children, those of the node are cut among them by a cut that counts and
are each read as the pattern that takes them. -/
inductive Reads (cuts : Cutting) : Option Pattern → Pattern → Cursor → Match → Prop where
  | leaf {enclosing : Option Pattern} {pattern : Pattern} {cursor : Cursor}
      (accepts : pattern.head.accepts cursor.kind = true)
      (childless : (pattern.shape enclosing).children = []) :
      Reads cuts enclosing pattern cursor (.node cursor pattern [])
  | node {enclosing : Option Pattern} {pattern : Pattern} {cursor : Cursor} {shares : List Share}
      {below : List Match} (accepts : pattern.head.accepts cursor.kind = true)
      (shaped : (pattern.shape enclosing).children ≠ [])
      (cut : cuts (childItems (pattern.shape enclosing).children) (cursor.named.map Cursor.kind) shares)
      (children : ReadsAll cuts (pattern.shape enclosing)
        (takers (childItems (pattern.shape enclosing).children) shares) cursor.named below) :
      Reads cuts enclosing pattern cursor (.node cursor pattern below)

/-- Matches read sibling nodes, each as the pattern in its place, inside a shape. -/
inductive ReadsAll (cuts : Cutting) : Pattern → List Pattern → List Cursor → List Match → Prop where
  | nil {shape : Pattern} : ReadsAll cuts shape [] [] []
  | cons {shape pattern : Pattern} {patterns : List Pattern} {cursor : Cursor}
      {cursors : List Cursor} {first : Match} {rest : List Match}
      (head : Reads cuts (some shape) pattern cursor first)
      (tail : ReadsAll cuts shape patterns cursors rest) :
      ReadsAll cuts shape (pattern :: patterns) (cursor :: cursors) (first :: rest)

end

variable {cuts : Cutting} {enclosing : Option Pattern} {pattern shape : Pattern} {cursor : Cursor}
  {found : Match}

theorem Reads.accepts (reads : Reads cuts enclosing pattern cursor found) :
    pattern.head.accepts cursor.kind = true := by
  cases reads with
  | leaf accepts _ => exact accepts
  | node accepts _ _ _ => exact accepts

/-- A shape without children says nothing of those of the node. -/
theorem reads_iff_of_childless (accepts : pattern.head.accepts cursor.kind = true)
    (childless : (pattern.shape enclosing).children = []) :
    Reads cuts enclosing pattern cursor found ↔ found = .node cursor pattern [] := by
  constructor
  · intro reads
    cases reads with
    | leaf _ _ => rfl
    | node _ shaped _ _ => exact absurd childless shaped
  · rintro rfl
    exact .leaf accepts childless

theorem reads_iff_of_shaped (accepts : pattern.head.accepts cursor.kind = true)
    (shaped : (pattern.shape enclosing).children ≠ []) :
    Reads cuts enclosing pattern cursor found ↔ ∃ shares below,
      cuts (childItems (pattern.shape enclosing).children) (cursor.named.map Cursor.kind) shares ∧
      ReadsAll cuts (pattern.shape enclosing)
        (takers (childItems (pattern.shape enclosing).children) shares) cursor.named below ∧
      found = .node cursor pattern below := by
  constructor
  · intro reads
    cases reads with
    | leaf _ childless => exact absurd childless shaped
    | node _ _ cut children => exact ⟨_, _, cut, children, rfl⟩
  · rintro ⟨shares, below, cut, children, rfl⟩
    exact .node accepts shaped cut children

theorem readsAll_cons_iff {first : Pattern} {rest : List Pattern} {cursors : List Cursor}
    {matches_ : List Match} :
    ReadsAll cuts shape (first :: rest) (cursor :: cursors) matches_ ↔ ∃ one others,
      Reads cuts (some shape) first cursor one ∧ ReadsAll cuts shape rest cursors others ∧
      matches_ = one :: others := by
  constructor
  · intro reads
    cases reads with
    | cons head tail => exact ⟨_, _, head, tail, rfl⟩
  · rintro ⟨one, others, head, tail, rfl⟩
    exact .cons head tail

theorem readsAll_nil_iff {matches_ : List Match} :
    ReadsAll cuts shape [] [] matches_ ↔ matches_ = [] := by
  constructor
  · intro reads
    cases reads
    rfl
  · rintro rfl
    exact .nil

mutual

/-- A reading in which all cuts are the first ones is a reading. -/
theorem Reads.any {enclosing : Option Pattern} {pattern : Pattern} {cursor : Cursor} {found : Match} :
    Reads FirstCut enclosing pattern cursor found → Reads Cut enclosing pattern cursor found
  | .leaf accepts childless => .leaf accepts childless
  | .node accepts shaped cut children => .node accepts shaped cut.isCut children.any

theorem ReadsAll.any {shape : Pattern} {patterns : List Pattern} {cursors : List Cursor}
    {found : List Match} :
    ReadsAll FirstCut shape patterns cursors found → ReadsAll Cut shape patterns cursors found
  | .nil => .nil
  | .cons head tail => .cons head.any tail.any

end

end Pattern

/-! ### Matching finds the first reading -/

section

variable {alphabet : Alphabet} {enclosing : Option Pattern} {pattern : Pattern} {cursor : Cursor}
  {found : Match} {shape : Matcher}

open Pattern

/-- Where the regular expression of a shape fails, there is no reading. -/
theorem Matcher.Compiled.not_reads (compiled : shape.Compiled alphabet)
    (isShape : shape.pattern = pattern.shape enclosing)
    (shaped : (pattern.shape enclosing).children ≠ [])
    (failed : shape.regex.spans? (alphabet.encode (cursor.named.map Cursor.kind)) = none) :
    ∀ found, ¬ Reads FirstCut enclosing pattern cursor found := by
  intro found reads
  obtain ⟨shares, _, first, _⟩ := (reads_iff_of_shaped reads.accepts shaped).mp reads
  have some_ := (compiled.isSome_spans?_iff (cursor.named.map Cursor.kind)).mpr
    ⟨shares, by rw [isShape]; exact first.isCut⟩
  rw [failed] at some_
  cases some_

/-- Where it finds spans, the children are read as the patterns to which the spans assign them. -/
theorem Matcher.Compiled.reads_iff (compiled : shape.Compiled alphabet)
    (isShape : shape.pattern = pattern.shape enclosing)
    (accepts : pattern.head.accepts cursor.kind = true)
    (shaped : (pattern.shape enclosing).children ≠ []) {spans : List (Option Span)}
    (isFound : shape.regex.spans? (alphabet.encode (cursor.named.map Cursor.kind)) = some spans) :
    (assigned (pattern.shape enclosing).children spans).length = cursor.named.length ∧
    ∀ found, (Reads FirstCut enclosing pattern cursor found ↔ ∃ below,
      ReadsAll FirstCut (pattern.shape enclosing) (assigned (pattern.shape enclosing).children spans)
        cursor.named below ∧ found = .node cursor pattern below) := by
  obtain ⟨shares, first, rfl⟩ := (compiled.spans?_eq_some_iff _ spans).mp isFound
  rw [isShape] at first ⊢
  have given : assigned (pattern.shape enclosing).children
      (groupSpans 0 (childItems (pattern.shape enclosing).children) shares)
      = takers (childItems (pattern.shape enclosing).children) shares := by
    have flat := first.isCut.assigned_groupSpans 0
    rwa [flatten_childItems] at flat
  rw [given]
  constructor
  · rw [first.isCut.length_takers, List.length_map]
  · intro found
    rw [reads_iff_of_shaped accepts shaped]
    constructor
    · rintro ⟨others, below, otherFirst, children, rfl⟩
      rw [otherFirst.unique first] at children
      exact ⟨below, children, rfl⟩
    · rintro ⟨below, children, rfl⟩
      exact ⟨shares, below, first, children, rfl⟩

end

namespace Matcher

open Pattern

variable {alphabet : Alphabet}

/-- If nodes are matched as they are read, then so are their matches in order, each against the next of
some compiled patterns. -/
theorem findEach?_eq_some_iff {shape : Matcher} {around : Pattern} {matchers : List Matcher}
    {cursors : List Cursor} (same : matchers.length = cursors.length)
    (each : ∀ cursor ∈ cursors, ∀ matcher ∈ matchers, ∀ first,
      matcher.find? alphabet (some shape) cursor = some first ↔
        Reads FirstCut (some around) matcher.pattern cursor first) (found : List Match) :
    findEach? alphabet shape matchers cursors = some found ↔
      ReadsAll FirstCut around (matchers.map Matcher.pattern) cursors found := by
  induction cursors generalizing matchers found with
  | nil =>
      obtain rfl : matchers = [] := List.length_eq_zero_iff.mp same
      rw [List.map_nil, readsAll_nil_iff, findEach?, Option.some.injEq, eq_comm]
  | cons cursor rest ih =>
      cases matchers with
      | nil => cases same
      | cons matcher others =>
          have one := each cursor List.mem_cons_self matcher List.mem_cons_self
          have later := ih (Nat.succ.inj same) fun child member part isPart =>
            each child (List.mem_cons_of_mem _ member) part (List.mem_cons_of_mem _ isPart)
          rw [List.map_cons, readsAll_cons_iff, findEach?]
          simp only [← one, ← later]
          cases matcher.find? alphabet (some shape) cursor with
          | none => simp
          | some first =>
              dsimp only
              rw [Option.map_eq_some_iff]
              constructor
              · rintro ⟨matches_, isLater, rfl⟩
                exact ⟨first, matches_, rfl, isLater, rfl⟩
              · rintro ⟨_, matches_, ⟨⟩, isLater, rfl⟩
                exact ⟨matches_, isLater, rfl⟩

/-- Matching a compiled pattern finds the reading of a node in which all cuts are the first ones. -/
theorem Stands.find?_eq_some_iff {pattern : Pattern} {enclosing : Option Pattern}
    {around : Option Matcher} {matcher : Matcher} {cursor : Cursor} {found : Match}
    (stands : Stands alphabet enclosing pattern around matcher) :
    matcher.find? alphabet around cursor = some found ↔
      Reads FirstCut enclosing pattern cursor found := by
  have isShape := stands.pattern_shape
  rw [find?_eq, stands.compiledFrom]
  by_cases accepts : pattern.head.accepts cursor.kind = true
  · rw [if_neg (by simp [accepts])]
    by_cases childless : (pattern.shape enclosing).children = []
    · rw [if_pos (by simpa using stands.children_eq_nil_iff.mpr childless),
        reads_iff_of_childless accepts childless, Option.some.injEq, eq_comm]
    · rw [if_neg (by simpa using mt stands.children_eq_nil_iff.mp childless)]
      split
      · rename_i failed
        have none_ := stands.compiled_shape.not_reads isShape childless failed found
        simp [none_]
      · rename_i spans isFound
        obtain ⟨same, reads⟩ := stands.compiled_shape.reads_iff isShape accepts childless isFound
        have patterns : (assigned (matcher.shape around).children spans).map Matcher.pattern
            = assigned (pattern.shape enclosing).children spans := by
          rw [map_assigned, stands.map_pattern_children]
        rw [reads, Option.map_eq_some_iff, ← patterns]
        refine exists_congr fun below => and_congr ?_ eq_comm
        apply findEach?_eq_some_iff
        · rw [← same, ← patterns, List.length_map]
        · intro child member part isPart first
          have lower := Cursor.height_lt_of_mem_named member
          exact (stands.child (mem_of_mem_assigned isPart)).2.find?_eq_some_iff
  · have rejects : ¬ Reads FirstCut enclosing pattern cursor found :=
      fun reads => accepts reads.accepts
    simp [accepts, rejects]
termination_by cursor.focus.height

end Matcher

end HeaderBindings
