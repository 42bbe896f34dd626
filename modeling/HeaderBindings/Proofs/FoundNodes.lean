/-
Module: HeaderBindings.Proofs.FoundNodes
Purpose: What a pattern that finds a node says of the node's children: which patterns find them, and
  that they stand in the order of those patterns.
Main exports: Cursor.ofKinds, Tree.height, Matcher.Stands, Matcher.find?_eq, Pattern.Unmixed,
  Pattern.Finds, Pattern.Finds.siblings, Pattern.Unmixed.ofKinds_group
-/
import Mathlib.Data.List.Basic
import HeaderBindings.Matching.Match
import HeaderBindings.Proofs.Compilation

namespace HeaderBindings

/-! ### Children -/

namespace Cursor

/-- The children of a node that are of one of some kinds and no comments. -/
def ofKinds (cursor : Cursor) (kinds : List String) : List Cursor :=
  cursor.named.filter fun child => kinds.contains child.kind

/-- The siblings from an index on that are not comments. -/
def namedFrom (parent : Tree) (above : List Frame) (index : Nat) (trees : List Tree) : List Cursor :=
  (onSiblings ⟨parent, above⟩ index trees).filter fun child => !child.focus.isComment

theorem named_node (label : Label) (trees : List Tree) (above : List Frame) :
    named ⟨.node label trees, above⟩ = namedFrom (.node label trees) above 0 trees := rfl

theorem namedFrom_cons (parent : Tree) (above : List Frame) (index : Nat) (tree : Tree)
    (rest : List Tree) :
    namedFrom parent above index (tree :: rest) =
      if tree.isComment then namedFrom parent above (index + 1) rest
      else ⟨tree, ⟨parent, index⟩ :: above⟩ :: namedFrom parent above (index + 1) rest := by
  unfold namedFrom
  rw [onSiblings, List.filter_cons]
  cases tree.isComment <;> rfl

theorem map_kind_namedFrom (parent : Tree) (above : List Frame) (index : Nat) (trees : List Tree) :
    (namedFrom parent above index trees).map kind = namedKinds trees := by
  induction trees generalizing index with
  | nil => rfl
  | cons tree rest ih =>
      rw [namedFrom_cons, namedKinds, List.filter_cons]
      cases comment : tree.isComment with
      | true => simpa [namedKinds] using ih (index + 1)
      | false => simpa [namedKinds, kind] using ih (index + 1)

theorem map_kind_named (cursor : Cursor) :
    cursor.named.map kind = namedKinds cursor.focus.children :=
  map_kind_namedFrom cursor.focus cursor.above 0 cursor.focus.children

theorem map_focus_named (cursor : Cursor) : cursor.named.map focus = cursor.focus.named := by
  have siblings : ∀ (trees : List Tree) (index : Nat),
      (namedFrom cursor.focus cursor.above index trees).map focus
        = trees.filter fun tree => !tree.isComment := by
    intro trees
    induction trees with
    | nil => intro index; rfl
    | cons tree rest ih =>
        intro index
        rw [namedFrom_cons, List.filter_cons]
        cases tree.isComment with
        | true => exact ih (index + 1)
        | false => simp [ih (index + 1)]
  exact siblings cursor.focus.children 0

/-- A child of a node lies directly below it, at its index. -/
theorem exists_index_of_mem_children {cursor child : Cursor} (member : child ∈ cursor.children) :
    ∃ index, child.above = ⟨cursor.focus, index⟩ :: cursor.above ∧
      cursor.focus.children[index]? = some child.focus := by
  have atIndex : ∀ (trees : List Tree) (start : Nat), child ∈ onSiblings cursor start trees →
      ∃ offset, child.above = ⟨cursor.focus, start + offset⟩ :: cursor.above ∧
        trees[offset]? = some child.focus := by
    intro trees
    induction trees with
    | nil => simp [onSiblings]
    | cons tree rest ih =>
        intro start inside
        rcases List.mem_cons.mp inside with rfl | later
        · exact ⟨0, rfl, rfl⟩
        · obtain ⟨offset, above, found⟩ := ih (start + 1) later
          exact ⟨offset + 1, by rw [above, Nat.add_right_comm, Nat.add_assoc], found⟩
  obtain ⟨index, above, found⟩ := atIndex _ 0 member
  exact ⟨index, by rw [above, Nat.zero_add], found⟩

theorem exists_index_of_mem_named {cursor child : Cursor} (member : child ∈ cursor.named) :
    ∃ index, child.above = ⟨cursor.focus, index⟩ :: cursor.above ∧
      cursor.focus.children[index]? = some child.focus :=
  exists_index_of_mem_children (List.mem_filter.mp member).1

theorem mem_ofKinds {cursor child : Cursor} {kinds : List String} :
    child ∈ cursor.ofKinds kinds ↔ child ∈ cursor.named ∧ child.kind ∈ kinds := by
  simp [ofKinds]

/-- The only child of a kind is of this kind. -/
theorem kind_of_only {cursor child : Cursor} {kind : String} (only : cursor.ofKinds [kind] = [child]) :
    child.kind = kind := by
  have isChild : child ∈ cursor.ofKinds [kind] := by
    rw [only]
    exact List.mem_singleton_self child
  exact List.mem_singleton.mp (mem_ofKinds.mp isChild).2

end Cursor

/-! ### Heights -/

namespace Tree

mutual

/-- The number of steps from the root down to the deepest node. -/
def height : Tree → Nat
  | node _ children => heightBelow children

/-- The number of steps from a node down to the deepest node in the trees below it. -/
def heightBelow : List Tree → Nat
  | [] => 0
  | first :: rest => max (first.height + 1) (heightBelow rest)

end

theorem height_lt_of_mem {tree child : Tree} (member : child ∈ tree.children) :
    child.height < tree.height := by
  have below : ∀ trees : List Tree, child ∈ trees → child.height < heightBelow trees := by
    intro trees
    induction trees with
    | nil => simp
    | cons first rest ih =>
        intro inside
        rw [heightBelow]
        rcases List.mem_cons.mp inside with rfl | later
        · omega
        · have := ih later
          omega
  cases tree with
  | node label children => exact below children member

end Tree

theorem Cursor.height_lt_of_mem_children {cursor child : Cursor} (member : child ∈ cursor.children) :
    child.focus.height < cursor.focus.height := by
  obtain ⟨index, _, isChild⟩ := exists_index_of_mem_children member
  exact Tree.height_lt_of_mem (List.mem_of_getElem? isChild)

theorem Cursor.height_lt_of_mem_named {cursor child : Cursor} (member : child ∈ cursor.named) :
    child.focus.height < cursor.focus.height :=
  height_lt_of_mem_children (List.mem_filter.mp member).1

/-! ### Siblings in the order of their patterns -/

theorem Head.accepts_iff {head : Head} (named : head.kinds ≠ []) (kind : String) :
    head.accepts kind = true ↔ kind ∈ head.kinds := by
  simp [accepts, named]

namespace Pattern

/-- Sibling patterns that all name kinds, no two of them the same one, none of them an alternative. -/
structure Unmixed (siblings : List Pattern) : Prop where
  named : ∀ sibling ∈ siblings, sibling.head.kinds ≠ []
  fixed : ∀ sibling ∈ siblings, sibling.head.quantifier ≠ .alternative
  apart : siblings.Pairwise fun one other => ∀ kind ∈ one.head.kinds, kind ∉ other.head.kinds

/-- Without alternatives, every child pattern is an item of its own. -/
theorem childItems_of_fixed {siblings : List Pattern}
    (fixed : ∀ sibling ∈ siblings, sibling.head.quantifier ≠ .alternative) :
    childItems siblings = siblings.map ([·]) := by
  induction siblings with
  | nil => rfl
  | cons first rest ih =>
      rw [List.forall_mem_cons] at fixed
      simp [childItems, fixed.1, ih fixed.2]

instance (siblings : List Pattern) : Decidable (Unmixed siblings) :=
  decidable_of_iff ((∀ sibling ∈ siblings, sibling.head.kinds ≠ []) ∧
      (∀ sibling ∈ siblings, sibling.head.quantifier ≠ .alternative) ∧
      siblings.Pairwise fun one other => ∀ kind ∈ one.head.kinds, kind ∉ other.head.kinds) <|
    ⟨fun unmixed => ⟨unmixed.1, unmixed.2.1, unmixed.2.2⟩,
      fun unmixed => ⟨unmixed.named, unmixed.fixed, unmixed.apart⟩⟩

namespace Unmixed

theorem tail {first : Pattern} {rest : List Pattern} (unmixed : Unmixed (first :: rest)) :
    Unmixed rest where
  named := (List.forall_mem_cons.mp unmixed.named).2
  fixed := (List.forall_mem_cons.mp unmixed.fixed).2
  apart := (List.pairwise_cons.mp unmixed.apart).2

/-- At most one of the siblings names a kind. -/
theorem unique {siblings : List Pattern} (unmixed : Unmixed siblings) {one other : Pattern}
    (isOne : one ∈ siblings) (isOther : other ∈ siblings) {kind : String}
    (inOne : kind ∈ one.head.kinds) (inOther : kind ∈ other.head.kinds) : one = other := by
  induction siblings with
  | nil => cases isOne
  | cons first rest ih =>
      have apart := (List.pairwise_cons.mp unmixed.apart).1
      rcases List.mem_cons.mp isOne with rfl | oneLater
      · rcases List.mem_cons.mp isOther with rfl | otherLater
        · rfl
        · exact absurd inOther (apart other otherLater kind inOne)
      · rcases List.mem_cons.mp isOther with rfl | otherLater
        · exact absurd inOne (apart one oneLater kind inOther)
        · exact ih unmixed.tail oneLater otherLater

theorem childItems_eq {siblings : List Pattern} (unmixed : Unmixed siblings) :
    childItems siblings = siblings.map ([·]) :=
  childItems_of_fixed unmixed.fixed

end Unmixed

end Pattern

/-- Entries that are cut among unmixed patterns stand in the order of the patterns: first all of the
kinds that the first pattern names, and so on, as many as the quantifiers allow. -/
theorem Cut.sorted {α : Type} {kindOf : α → String} {siblings : List Pattern} {entries : List α}
    {shares : List Share} (unmixed : Pattern.Unmixed siblings)
    (cut : Cut (siblings.map ([·])) (entries.map kindOf) shares) :
    entries = siblings.flatMap (fun sibling =>
        entries.filter fun entry => sibling.head.kinds.contains (kindOf entry)) ∧
      ∀ sibling ∈ siblings, sibling.head.quantifier.Allows
        (entries.filter fun entry => sibling.head.kinds.contains (kindOf entry)).length := by
  induction siblings generalizing entries shares with
  | nil =>
      cases entries with
      | nil => simp
      | cons entry rest => cases cut
  | cons first rest ih =>
      obtain ⟨_, _, restShares, read, consumed, restCut⟩ := cut.of_single
      obtain ⟨front, back, rfl, rfl, rfl⟩ := List.map_eq_append_iff.mp read
      obtain ⟨sorted, allowed⟩ := ih unmixed.tail restCut
      have named := (List.forall_mem_cons.mp unmixed.named).1
      have apart := (List.pairwise_cons.mp unmixed.apart).1
      have frontFirst : ∀ entry ∈ front, kindOf entry ∈ first.head.kinds := by
        intro entry member
        exact (Head.accepts_iff named _).mp (consumed.2 _ (List.mem_map_of_mem member))
      have backLater : ∀ entry ∈ back, ∃ sibling ∈ rest, kindOf entry ∈ sibling.head.kinds := by
        intro entry member
        rw [sorted] at member
        obtain ⟨sibling, isSibling, inside⟩ := List.mem_flatMap.mp member
        exact ⟨sibling, isSibling, by simpa using (List.mem_filter.mp inside).2⟩
      have ofFirst : (front ++ back).filter
          (fun entry => first.head.kinds.contains (kindOf entry)) = front := by
        rw [List.filter_append, List.filter_eq_self.mpr, List.filter_eq_nil_iff.mpr,
          List.append_nil]
        · intro entry member inFirst
          obtain ⟨sibling, isSibling, inLater⟩ := backLater entry member
          exact apart sibling isSibling _ (by simpa using inFirst) inLater
        · intro entry member
          simpa using frontFirst entry member
      have ofLater : ∀ sibling ∈ rest, (front ++ back).filter
          (fun entry => sibling.head.kinds.contains (kindOf entry))
          = back.filter fun entry => sibling.head.kinds.contains (kindOf entry) := by
        intro sibling isSibling
        rw [List.filter_append, List.filter_eq_nil_iff.mpr, List.nil_append]
        intro entry member inLater
        exact apart sibling isSibling _ (frontFirst entry member) (by simpa using inLater)
      constructor
      · rw [List.flatMap_cons, ofFirst, List.flatMap_congr ofLater, ← sorted]
      · refine List.forall_mem_cons.mpr ⟨?_, ?_⟩
        · rw [ofFirst]
          simpa using consumed.1
        · intro sibling isSibling
          rw [ofLater sibling isSibling]
          exact allowed sibling isSibling

/-- Entries that are cut among patterns the last of which are unmixed: some that the first patterns name, and
the others in the order of the last ones. -/
theorem Cut.sorted_after {α : Type} {kindOf : α → String}
    {front siblings : List Pattern} {entries : List α}
    {shares : List Share} (named : ∀ part ∈ front, part.head.kinds ≠ [])
    (unmixed : Pattern.Unmixed siblings)
    (cut : Cut ((front ++ siblings).map ([·])) (entries.map kindOf) shares) :
    ∃ first later, entries = first ++ later ∧
      (∀ entry ∈ first, ∃ part ∈ front, kindOf entry ∈ part.head.kinds) ∧
      later = siblings.flatMap fun sibling =>
        later.filter fun entry => sibling.head.kinds.contains (kindOf entry) := by
  induction front generalizing entries shares with
  | nil => exact ⟨[], entries, rfl, by simp, (cut.sorted unmixed).1⟩
  | cons part rest ih =>
      rw [List.forall_mem_cons] at named
      obtain ⟨_, _, _, read, consumed, restCut⟩ := cut.of_single
      obtain ⟨own, others, rfl, rfl, rfl⟩ := List.map_eq_append_iff.mp read
      obtain ⟨first, later, rfl, areFirst, sorted⟩ := ih named.2 restCut
      refine ⟨own ++ first, later, (List.append_assoc ..).symm, fun entry member => ?_, sorted⟩
      rcases List.mem_append.mp member with isOwn | isLater
      · exact ⟨part, List.mem_cons_self,
          (Head.accepts_iff named.1 _).mp (consumed.2 _ (List.mem_map_of_mem isOwn))⟩
      · obtain ⟨other, isOther, kind⟩ := areFirst entry isLater
        exact ⟨other, List.mem_cons_of_mem _ isOther, kind⟩

/-! ### Compiled patterns -/

theorem mem_of_mem_assigned {α : Type} {entries : List α} {spans : List (Option Span)} {entry : α}
    (member : entry ∈ assigned entries spans) : entry ∈ entries := by
  fun_induction assigned entries spans with
  | case1 first entries span spans ih =>
      rcases List.mem_append.mp member with inside | later
      · rw [(List.mem_replicate.mp inside).2]
        exact List.mem_cons_self
      · exact List.mem_cons_of_mem _ (ih later)
  | case2 first entries spans ih => exact List.mem_cons_of_mem _ (ih member)
  | case3 => cases member

namespace Matcher

variable {alphabet : Alphabet} {matcher : Matcher} {around : Option Matcher} {pattern : Pattern}
  {enclosing : Option Pattern}

theorem Compiled.map_pattern_children (compiled : matcher.Compiled alphabet) :
    matcher.children.map Matcher.pattern = matcher.pattern.children := by
  cases compiled with
  | node _ paired _ => exact paired

theorem Compiled.child (compiled : matcher.Compiled alphabet) {part : Matcher}
    (member : part ∈ matcher.children) : part.Compiled alphabet := by
  cases compiled with
  | node _ _ below => exact below part member

/-- A compiled pattern stands for a pattern, and a compiled shape around it, if there is one, for a
shape. -/
structure Stands (alphabet : Alphabet) (enclosing : Option Pattern) (pattern : Pattern)
    (around : Option Matcher) (matcher : Matcher) : Prop where
  compiled : matcher.Compiled alphabet
  compiledFrom : matcher.pattern = pattern
  aroundCompiled : ∀ shape ∈ around, shape.Compiled alphabet
  aroundFrom : around.map Matcher.pattern = enclosing

/-- Outside any shape, a compiled pattern stands for what it was compiled from. -/
theorem Compiled.stands (compiled : matcher.Compiled alphabet) (compiledFrom : matcher.pattern = pattern) :
    Stands alphabet none pattern none matcher where
  compiled := compiled
  compiledFrom := compiledFrom
  aroundCompiled := by simp
  aroundFrom := rfl

namespace Stands

theorem compiled_shape (stands : Stands alphabet enclosing pattern around matcher) :
    (matcher.shape around).Compiled alphabet := by
  unfold shape
  split
  · cases around with
    | none => exact stands.compiled
    | some shape => exact stands.aroundCompiled shape rfl
  · exact stands.compiled

theorem pattern_shape (stands : Stands alphabet enclosing pattern around matcher) :
    (matcher.shape around).pattern = pattern.shape enclosing := by
  unfold shape Pattern.shape
  rw [← stands.compiledFrom, ← stands.aroundFrom]
  cases matcher.pattern.head.recursive with
  | false => rfl
  | true => cases around <;> rfl

theorem map_pattern_children (stands : Stands alphabet enclosing pattern around matcher) :
    (matcher.shape around).children.map Matcher.pattern = (pattern.shape enclosing).children := by
  rw [← stands.pattern_shape]
  exact stands.compiled_shape.map_pattern_children

theorem children_eq_nil_iff (stands : Stands alphabet enclosing pattern around matcher) :
    (matcher.shape around).children = [] ↔ (pattern.shape enclosing).children = [] := by
  rw [← stands.map_pattern_children, List.map_eq_nil_iff]

/-- The compiled children of the shape stand for its children. -/
theorem child (stands : Stands alphabet enclosing pattern around matcher) {part : Matcher}
    (member : part ∈ (matcher.shape around).children) :
    part.pattern ∈ (pattern.shape enclosing).children ∧
      Stands alphabet (some (pattern.shape enclosing)) part.pattern
        (some (matcher.shape around)) part := by
  constructor
  · rw [← stands.map_pattern_children]
    exact List.mem_map_of_mem member
  · exact {
      compiled := stands.compiled_shape.child member
      compiledFrom := rfl
      aroundCompiled := by
        rintro shape ⟨⟩
        exact stands.compiled_shape
      aroundFrom := by rw [Option.map_some, stands.pattern_shape] }

end Stands

end Matcher

/-! ### Matching by children that are not comments -/

namespace Matcher

variable {alphabet : Alphabet}

/-- Match nodes, each against the next of some compiled patterns inside a shape. -/
def findEach? (alphabet : Alphabet) (shape : Matcher) : List Matcher → List Cursor → Option (List Match)
  | _, [] => some []
  | [], _ :: _ => none
  | matcher :: others, cursor :: rest =>
      match matcher.find? alphabet (some shape) cursor with
      | none => none
      | some first => (findEach? alphabet shape others rest).map (first :: ·)

theorem findAll?_eq (parent : Tree) (above : List Frame) (shape : Matcher) (matchers : List Matcher)
    (index : Nat) (trees : List Tree) :
    findAll? alphabet parent above shape matchers index trees
      = findEach? alphabet shape matchers (Cursor.namedFrom parent above index trees) := by
  induction trees generalizing matchers index with
  | nil =>
      have nobody : Cursor.namedFrom parent above index [] = [] := rfl
      cases matchers with
      | nil => rw [findAll?, nobody, findEach?]
      | cons first others => rw [findAll?, nobody, findEach?]
  | cons tree rest ih =>
      rw [Cursor.namedFrom_cons]
      unfold findAll?
      split
      · exact ih matchers (index + 1)
      · cases matchers with
        | nil => rw [findEach?]
        | cons matcher others =>
            rw [findEach?]
            simp only [ih]
            rfl

/-- Matching a node looks at its kind and at its children that are not comments. -/
theorem find?_eq (matcher : Matcher) (enclosing : Option Matcher) (cursor : Cursor) :
    matcher.find? alphabet enclosing cursor =
      if !matcher.pattern.head.accepts cursor.kind then none
      else if (matcher.shape enclosing).children.isEmpty then some (.node cursor matcher.pattern [])
      else match (matcher.shape enclosing).regex.spans?
          (alphabet.encode (cursor.named.map Cursor.kind)) with
        | none => none
        | some spans => (findEach? alphabet (matcher.shape enclosing)
            (assigned (matcher.shape enclosing).children spans) cursor.named).map
              (.node cursor matcher.pattern) := by
  obtain ⟨⟨label, trees⟩, above⟩ := cursor
  rw [find?, findIn?, Cursor.map_kind_named]
  simp only [findAll?_eq, Cursor.named_node]
  rfl

/-- Nodes that are matched are each found by one of the compiled patterns. -/
theorem exists_isSome_of_findEach? {shape : Matcher} {matchers : List Matcher} {cursors : List Cursor}
    {found : List Match} (all : findEach? alphabet shape matchers cursors = some found) :
    ∀ cursor ∈ cursors, ∃ matcher ∈ matchers,
      (matcher.find? alphabet (some shape) cursor).isSome = true := by
  induction cursors generalizing matchers found with
  | nil => simp
  | cons cursor rest ih =>
      cases matchers with
      | nil => cases all
      | cons matcher others =>
          rw [findEach?] at all
          split at all
          · cases all
          · rename_i first isFirst
            obtain ⟨later, isLater, _⟩ := Option.map_eq_some_iff.mp all
            rw [List.forall_mem_cons]
            constructor
            · exact ⟨matcher, List.mem_cons_self, by simp [isFirst]⟩
            · intro child member
              obtain ⟨other, isOther, isFound⟩ := ih isLater child member
              exact ⟨other, List.mem_cons_of_mem _ isOther, isFound⟩

end Matcher

/-! ### Found nodes -/

namespace Pattern

variable {alphabet : Alphabet} {enclosing : Option Pattern} {pattern : Pattern} {cursor : Cursor}

/-- A pattern inside an enclosing shape, if there is one, finds a node. -/
def Finds (alphabet : Alphabet) (enclosing : Option Pattern) (pattern : Pattern)
    (cursor : Cursor) : Prop :=
  ∃ around matcher, Matcher.Stands alphabet enclosing pattern around matcher ∧
    (matcher.find? alphabet around cursor).isSome = true

namespace Finds

theorem accepts (finds : Finds alphabet enclosing pattern cursor) :
    pattern.head.accepts cursor.kind = true := by
  obtain ⟨around, matcher, stands, found⟩ := finds
  by_contra rejected
  rw [Matcher.find?_eq, stands.compiledFrom, if_pos (by simpa using rejected)] at found
  cases found

theorem kind_mem (finds : Finds alphabet enclosing pattern cursor) (named : pattern.head.kinds ≠ []) :
    cursor.kind ∈ pattern.head.kinds :=
  (Head.accepts_iff named _).mp finds.accepts

/-- A pattern that names one kind finds only nodes of that kind. -/
theorem kind_eq {kind : String} (finds : Finds alphabet enclosing pattern cursor)
    (only : pattern.head.kinds = [kind]) : cursor.kind = kind := by
  have member := finds.kind_mem (by simp [only])
  rw [only] at member
  exact List.mem_singleton.mp member

/-- If the shape has children, those of the node can be cut among them, and each is found by one of
them. -/
theorem parts (finds : Finds alphabet enclosing pattern cursor)
    (shaped : (pattern.shape enclosing).children ≠ []) :
    (∃ shares, Cut (childItems (pattern.shape enclosing).children) (cursor.named.map Cursor.kind)
        shares) ∧
      ∀ child ∈ cursor.named, ∃ part ∈ (pattern.shape enclosing).children,
        Finds alphabet (some (pattern.shape enclosing)) part child := by
  have accepted := finds.accepts
  obtain ⟨around, matcher, stands, found⟩ := finds
  have nonempty : (matcher.shape around).children ≠ [] := by
    rwa [ne_eq, stands.children_eq_nil_iff]
  rw [Matcher.find?_eq, stands.compiledFrom, accepted, if_neg (by simp),
    if_neg (by simpa using nonempty)] at found
  rw [← stands.pattern_shape]
  split at found
  · cases found
  · rename_i spans isSpans
    rw [Option.isSome_map] at found
    obtain ⟨all, foundAll⟩ := Option.isSome_iff_exists.mp found
    refine ⟨(stands.compiled_shape.isSome_spans?_iff _).mp (by simp [isSpans]), ?_⟩
    intro child member
    obtain ⟨part, assigned, isFound⟩ := Matcher.exists_isSome_of_findEach? foundAll child member
    obtain ⟨isPart, partStands⟩ := stands.child (mem_of_mem_assigned assigned)
    rw [stands.pattern_shape]
    exact ⟨part.pattern, isPart, _, part, partStands, isFound⟩

/-- If the children of the shape are unmixed, those of the node stand in the order of the patterns, as
many of each as its quantifier allows, and each is found by the pattern that names its kind. -/
theorem siblings (finds : Finds alphabet enclosing pattern cursor) {parts : List Pattern}
    (shape : (pattern.shape enclosing).children = parts) (nonempty : parts ≠ [])
    (unmixed : Unmixed parts) :
    cursor.named = parts.flatMap (fun part => cursor.ofKinds part.head.kinds) ∧
      ∀ part ∈ parts, part.head.quantifier.Allows (cursor.ofKinds part.head.kinds).length ∧
        ∀ child ∈ cursor.ofKinds part.head.kinds,
          Finds alphabet (some (pattern.shape enclosing)) part child := by
  subst shape
  obtain ⟨⟨shares, cut⟩, found⟩ := finds.parts nonempty
  rw [unmixed.childItems_eq] at cut
  obtain ⟨sorted, allowed⟩ := cut.sorted unmixed
  refine ⟨sorted, fun part isPart => ⟨allowed part isPart, ?_⟩⟩
  intro child member
  obtain ⟨inside, kind⟩ := Cursor.mem_ofKinds.mp member
  obtain ⟨other, isOther, finds⟩ := found child inside
  have accepted := finds.kind_mem (unmixed.named other isOther)
  rwa [unmixed.unique isPart isOther kind accepted]

end Finds

/-- Entries that stand in the order of unmixed patterns stand together, in that order, if they are of kinds
that neighbouring patterns name. -/
theorem Unmixed.filter_group {α : Type} {kindOf : α → String} {entries : List α}
    (before group after : List Pattern) (unmixed : Unmixed (before ++ group ++ after))
    (sorted : entries = (before ++ group ++ after).flatMap fun part =>
      entries.filter fun entry => part.head.kinds.contains (kindOf entry)) :
    entries.filter (fun entry => (group.flatMap fun part => part.head.kinds).contains (kindOf entry))
      = group.flatMap fun part =>
        entries.filter fun entry => part.head.kinds.contains (kindOf entry) := by
  obtain ⟨inner, _, withAfter⟩ := List.pairwise_append.mp unmixed.apart
  obtain ⟨_, _, withBefore⟩ := List.pairwise_append.mp inner
  have own : ∀ {part : Pattern}, ∀ entry ∈ entries.filter
      (fun entry => part.head.kinds.contains (kindOf entry)), kindOf entry ∈ part.head.kinds :=
    fun entry member => List.contains_iff_mem.mp (List.mem_filter.mp member).2
  have outside : ∀ part ∈ before ++ after,
      (entries.filter fun entry => part.head.kinds.contains (kindOf entry)).filter
        (fun entry => (group.flatMap fun part => part.head.kinds).contains (kindOf entry)) = [] := by
    intro part isOutside
    rw [List.filter_eq_nil_iff]
    intro entry member inGroup
    obtain ⟨other, isOther, named⟩ := List.mem_flatMap.mp (List.contains_iff_mem.mp inGroup)
    rcases List.mem_append.mp isOutside with isBefore | isAfter
    · exact withBefore part isBefore other isOther _ (own entry member) named
    · exact withAfter other (List.mem_append_right _ isOther) part isAfter _ named (own entry member)
  have inside : ∀ part ∈ group,
      (entries.filter fun entry => part.head.kinds.contains (kindOf entry)).filter
        (fun entry => (group.flatMap fun part => part.head.kinds).contains (kindOf entry))
      = entries.filter fun entry => part.head.kinds.contains (kindOf entry) := by
    intro part isInside
    rw [List.filter_eq_self]
    intro entry member
    exact List.contains_iff_mem.mpr (List.mem_flatMap.mpr ⟨part, isInside, own entry member⟩)
  conv_lhs => rw [sorted, List.filter_flatMap]
  rw [List.flatMap_append, List.flatMap_append, List.flatMap_congr inside,
    List.flatMap_eq_nil_iff.mpr fun part member => outside part (List.mem_append_left _ member),
    List.flatMap_eq_nil_iff.mpr fun part member => outside part (List.mem_append_right _ member),
    List.nil_append, List.append_nil]

/-- The same for the children of a node. -/
theorem Unmixed.ofKinds_group (before group after : List Pattern)
    (unmixed : Unmixed (before ++ group ++ after))
    (sorted : cursor.named = (before ++ group ++ after).flatMap
      fun part => cursor.ofKinds part.head.kinds) :
    cursor.ofKinds (group.flatMap fun part => part.head.kinds)
      = group.flatMap fun part => cursor.ofKinds part.head.kinds :=
  unmixed.filter_group before group after sorted

end Pattern

end HeaderBindings
