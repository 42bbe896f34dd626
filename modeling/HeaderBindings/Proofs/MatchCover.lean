/-
Module: HeaderBindings.Proofs.MatchCover
Purpose: A match covers its shape: at every level its children stand for the children of its node that are
  not comments, all of them, in order; so its nodes and its captures come in document order.
Main exports: Pattern.closed_of_compile, Pattern.Matches, Match.Covers, Cursor.map_number_preorder,
  Match.leaves, CapturedInOrder, Pattern.Matches.covers_in_order
-/
import Mathlib.Data.List.Flatten
import HeaderBindings.Proofs.AlphabetHistory
import HeaderBindings.Proofs.CapturedLeaves
import HeaderBindings.Proofs.CommentedTrees

namespace HeaderBindings

/-! ### Patterns that compile -/

namespace Pattern

/-- Items are made of no child list that ends with an alternative. -/
theorem closable_of_itemsAfter? {alphabet : Alphabet} {run : List Group} {children : List Pattern}
    {regex : Regex} (items : itemsAfter? alphabet run children = some regex) :
    endsOpen children = false := by
  induction children generalizing run regex with
  | nil => rfl
  | cons child rest ih =>
      rw [itemsAfter?_cons] at items
      cases rest with
      | nil =>
          split at items
          · cases joined : run ++ [child.group alphabet] with
            | nil => simp at joined
            | cons first others =>
                rw [joined] at items
                cases items
          · rename_i separate
            simpa [endsOpen] using separate
      | cons second rest =>
          rw [endsOpen_cons_cons]
          split at items
          · exact ih items
          · obtain ⟨_, later, _⟩ := Option.map_eq_some_iff.mp items
            exact ih later

mutual

/-- Only closed patterns compile. -/
theorem closed_of_compile : ∀ {pattern : Pattern} {alphabet final : Alphabet} {matcher : Matcher},
    pattern.compile alphabet = (.ok matcher, final) → pattern.Closed
  | .node head children, alphabet, final, matcher, compiles => by
      unfold compile at compiles
      dsimp only at compiles
      split at compiles
      · cases compiles
      · rename_i regex isRegex
        split at compiles
        · rename_i matchers last below
          exact closed_node_iff.mpr ⟨closable_of_itemsAfter? isRegex, closed_of_compileList below⟩
        · cases compiles

theorem closed_of_compileList : ∀ {patterns : List Pattern} {alphabet final : Alphabet}
    {matchers : List Matcher}, compileList alphabet patterns = (.ok matchers, final) →
    ∀ pattern ∈ patterns, pattern.Closed
  | [], alphabet, final, matchers, _ => by simp
  | first :: rest, alphabet, final, matchers, compiles => by
      unfold compileList at compiles
      split at compiles
      · cases compiles
      · rename_i matcher middle compilesFirst
        split at compiles
        · cases compiles
        · rename_i others last compilesRest
          exact List.forall_mem_cons.mpr
            ⟨closed_of_compile compilesFirst, closed_of_compileList compilesRest⟩

end

/-- A pattern was compiled at some time; kinds may have got codes since. -/
def WasCompiled (pattern : Pattern) (alphabet : Alphabet) (matcher : Matcher) : Prop :=
  ∃ earlier compiledIn, pattern.compile earlier = (.ok matcher, compiledIn) ∧
    compiledIn.Later alphabet

theorem WasCompiled.compiled {pattern : Pattern} {alphabet : Alphabet} {matcher : Matcher}
    (wasCompiled : pattern.WasCompiled alphabet matcher) :
    matcher.Compiled alphabet ∧ matcher.pattern = pattern := by
  obtain ⟨earlier, compiledIn, compiles, later⟩ := wasCompiled
  obtain ⟨other, final, same, _, compiled, compiledFrom⟩ :=
    compile_closed pattern earlier (closed_of_compile compiles)
  cases same.symm.trans compiles
  exact ⟨compiled.of_extends later.extends, compiledFrom⟩

/-- A match is returned for a node and a pattern, inside an enclosing shape, if there is one: both were
compiled before, or shapes are compiled on the way. -/
inductive Matches (enclosing : Option Pattern) (pattern : Pattern) (cursor : Cursor) (found : Match) :
    Prop where
  | compiled {alphabet : Alphabet} {around : Option Matcher} {matcher : Matcher}
      (wasCompiled : pattern.WasCompiled alphabet matcher)
      (aroundCompiled : Option.Rel (WasCompiled · alphabet ·) enclosing around)
      (finds : matcher.find? alphabet around cursor = some found)
  | onDemand {alphabet final : Alphabet}
      (finds : pattern.findLazily alphabet enclosing cursor = .ok (some found, final))

variable {enclosing : Option Pattern} {pattern : Pattern} {cursor : Cursor} {found : Match}

/-- What is found while shapes are compiled on the way is a reading, whatever the patterns are: the shape
of a node with children to match has compiled, so it is closed. -/
theorem reads_of_findLazily {alphabet final : Alphabet}
    (finds : pattern.findLazily alphabet enclosing cursor = .ok (some found, final)) :
    Reads FirstCut enclosing pattern cursor found := by
  obtain ⟨⟨label, trees⟩, above⟩ := cursor
  unfold findLazily findLazilyIn at finds
  dsimp only at finds
  split at finds
  · cases finds
  · rename_i accepted
    have accepts : pattern.head.accepts (Cursor.kind ⟨.node label trees, above⟩) = true := by
      simpa [Cursor.kind, Tree.kind, Tree.label] using accepted
    split at finds
    · rename_i childless
      cases finds
      exact .leaf accepts (List.isEmpty_iff.mp childless)
    · rename_i shaped
      have hasChildren : (pattern.shape enclosing).children ≠ [] := by simpa using shaped
      have kinds := Cursor.map_kind_named ⟨.node label trees, above⟩
      rw [Tree.children] at kinds
      split at finds
      · cases finds
      · rename_i matcher extended compiles
        have shapeClosed := closed_of_compile compiles
        have wasCompiled : (pattern.shape enclosing).WasCompiled extended matcher :=
          ⟨_, _, compiles, .same⟩
        obtain ⟨compiled, compiledFrom⟩ := wasCompiled.compiled
        rw [← kinds] at finds
        split at finds
        · cases finds
        · rename_i spans isFound
          obtain ⟨same, readsIff⟩ := compiled.reads_iff compiledFrom accepts hasChildren isFound
          have partsClosed : ∀ part ∈ assigned (pattern.shape enclosing).children spans, part.Closed :=
            fun part member => shapeClosed.child (mem_of_mem_assigned member)
          obtain ⟨matches?, last, all, reads⟩ := findAllLazily_reads trees (.node label trees) above 0
            extended shapeClosed partsClosed same
          rw [all] at finds
          obtain ⟨isResult, _⟩ := Prod.mk.inj (Except.ok.inj finds)
          obtain ⟨below, isBelow, rfl⟩ := Option.map_eq_some_iff.mp isResult
          exact (readsIff _).mpr ⟨below, (reads below).mp isBelow, rfl⟩

/-- Every match that is returned is the reading in which all cuts are the first ones. -/
theorem Matches.reads (isMatch : Matches enclosing pattern cursor found) :
    Reads FirstCut enclosing pattern cursor found := by
  cases isMatch with
  | onDemand finds => exact reads_of_findLazily finds
  | @compiled alphabet around matcher wasCompiled aroundCompiled finds =>
      obtain ⟨compiled, compiledFrom⟩ := wasCompiled.compiled
      have stands : Matcher.Stands alphabet enclosing pattern around matcher := by
        cases aroundCompiled with
        | none => exact compiled.stands compiledFrom
        | some shapeCompiled =>
            obtain ⟨shapeBelongs, shapeFrom⟩ := shapeCompiled.compiled
            exact ⟨compiled, compiledFrom, by simpa using shapeBelongs, by simpa using shapeFrom⟩
      exact stands.find?_eq_some_iff.mp finds

end Pattern

/-! ### Covered shapes -/

namespace Match

/-- A match covers its shape inside an enclosing one, if there is one: either the shape has no children,
and neither has the match; or the children stand for the children of the node that are not comments, each
for the next of them, and each child pairs a child pattern of the shape with a node of a kind that the
pattern accepts, and covers its own shape. -/
inductive Covers : Option Pattern → Match → Prop where
  | leaf {enclosing : Option Pattern} {cursor : Cursor} {pattern : Pattern}
      (childless : (pattern.shape enclosing).children = []) :
      Covers enclosing (.node cursor pattern [])
  | node {enclosing : Option Pattern} {cursor : Cursor} {pattern : Pattern} {children : List Match}
      (shaped : (pattern.shape enclosing).children ≠ [])
      (complete : children.map Match.cursor = cursor.named)
      (paired : ∀ child ∈ children, child.pattern ∈ (pattern.shape enclosing).children ∧
        child.pattern.head.accepts child.cursor.kind = true)
      (below : ∀ child ∈ children, Covers (some (pattern.shape enclosing)) child) :
      Covers enclosing (.node cursor pattern children)

end Match

namespace Pattern

variable {cuts : Cutting} {enclosing : Option Pattern} {pattern : Pattern} {cursor : Cursor}
  {found : Match}

theorem Reads.cursor_eq (reads : Reads cuts enclosing pattern cursor found) :
    found.cursor = cursor ∧ found.pattern = pattern := by
  cases reads with
  | leaf _ _ => exact ⟨rfl, rfl⟩
  | node _ _ _ _ => exact ⟨rfl, rfl⟩

mutual

theorem Reads.covers {enclosing : Option Pattern} {pattern : Pattern} {cursor : Cursor} {found : Match} :
    Reads Cut enclosing pattern cursor found → found.Covers enclosing
  | .leaf _ childless => .leaf childless
  | .node _ shaped cut children => by
      obtain ⟨cursors, each⟩ := children.covers
      refine .node shaped cursors (fun child member => ?_) fun child member => (each child member).2.2
      obtain ⟨isTaker, accepts, _⟩ := each child member
      have inItems := Cut.mem_takers isTaker
      rw [flatten_childItems] at inItems
      exact ⟨inItems, accepts⟩

theorem ReadsAll.covers {shape : Pattern} {patterns : List Pattern} {cursors : List Cursor}
    {found : List Match} :
    ReadsAll Cut shape patterns cursors found → found.map Match.cursor = cursors ∧
      ∀ child ∈ found, child.pattern ∈ patterns ∧
        child.pattern.head.accepts child.cursor.kind = true ∧ child.Covers (some shape)
  | .nil => ⟨rfl, by simp⟩
  | .cons head tail => by
      obtain ⟨cursors, each⟩ := tail.covers
      obtain ⟨isCursor, isPattern⟩ := head.cursor_eq
      refine ⟨by rw [List.map_cons, isCursor, cursors], List.forall_mem_cons.mpr ⟨?_, ?_⟩⟩
      · rw [isCursor, isPattern]
        exact ⟨List.mem_cons_self, head.accepts, head.covers⟩
      · intro child member
        obtain ⟨isTaker, accepts, covers⟩ := each child member
        exact ⟨List.mem_cons_of_mem _ isTaker, accepts, covers⟩

end

end Pattern

/-! ### Document order -/

theorem Tree.sizes_append (first second : List Tree) :
    sizes (first ++ second) = sizes first + sizes second := by
  simp [sizes_eq_sum]

namespace Cursor

mutual

/-- The nodes from a node on are numbered in order, without gaps. -/
theorem map_number_listing : ∀ (tree : Tree) (above : List Frame),
    (listing above tree).map number = List.range' (numberOf above) tree.size
  | .node label children, above => by
      have below := map_number_listingOfSiblings children label [] above
      simp only [List.nil_append, List.length_nil, Tree.sizes, Nat.add_zero] at below
      rw [listing, List.map_cons, below, Tree.size, List.range'_succ]
      rfl

theorem map_number_listingOfSiblings : ∀ (trees : List Tree) (label : Label) (before : List Tree)
    (above : List Frame),
    (listingOfSiblings (.node label (before ++ trees)) above before.length trees).map number
      = List.range' (numberOf above + 1 + Tree.sizes before) (Tree.sizes trees)
  | [], label, before, above => by simp [listingOfSiblings, Tree.sizes]
  | tree :: rest, label, before, above => by
      have first :=
        map_number_listing tree (⟨.node label (before ++ tree :: rest), before.length⟩ :: above)
      have later := map_number_listingOfSiblings rest label (before ++ [tree]) above
      have here : numberOf (⟨.node label (before ++ tree :: rest), before.length⟩ :: above)
          = numberOf above + 1 + Tree.sizes before := by
        rw [numberOf, Tree.children, List.take_left]
      have sizes : Tree.sizes (tree :: rest) = tree.size + Tree.sizes rest := rfl
      have one : Tree.sizes [tree] = tree.size := rfl
      rw [List.append_assoc, List.singleton_append, List.length_append, List.length_singleton,
        Tree.sizes_append, one, ← Nat.add_assoc] at later
      rw [listingOfSiblings, List.map_append, first, here, later, sizes, List.range'_append_1]

end

theorem map_number_preorder (cursor : Cursor) :
    cursor.preorder.map number = List.range' cursor.number cursor.focus.size :=
  map_number_listing cursor.focus cursor.above

end Cursor

namespace Match

theorem nodesOfList_eq (matches_ : List Match) : nodesOfList matches_ = matches_.flatMap nodes := by
  induction matches_ with
  | nil => rfl
  | cons first rest ih => rw [nodesOfList, ih, List.flatMap_cons]

/-- The nodes of a match that covers its shape are in document order. -/
theorem Covers.nodes_sublist {enclosing : Option Pattern} {found : Match}
    (covers : found.Covers enclosing) : found.nodes.Sublist found.cursor.preorder := by
  induction covers with
  | leaf _ =>
      rw [nodes, nodesOfList, Match.cursor, Cursor.preorder_eq]
      exact List.singleton_sublist.mpr List.mem_cons_self
  | @node _ cursor pattern children _ complete _ _ ih =>
      have own : (children.flatMap nodes).Sublist
          (children.flatMap fun child => child.cursor.preorder) :=
        List.Sublist.flatMap_right children ih
      have listed : (children.flatMap fun child => child.cursor.preorder)
          = cursor.named.flatMap Cursor.preorder := by
        rw [← complete, List.flatMap_map]
      have below : (cursor.named.flatMap Cursor.preorder).Sublist
          (cursor.children.flatMap Cursor.preorder) :=
        List.filter_sublist.flatMap _
      rw [listed] at own
      rw [nodes, nodesOfList_eq, Match.cursor, Cursor.preorder_eq]
      exact (own.trans below).cons_cons cursor

/-! ### Captured nodes -/

mutual

/-- The captured nodes of a match, in order: those of its nodes that are captured, unless they are below
another one. -/
def leaves : Match → List Cursor
  | node cursor _ children =>
      if Capture.isCaptured cursor.kind then [cursor] else leavesOfList children

/-- The captured nodes of matches in order. -/
def leavesOfList : List Match → List Cursor
  | [] => []
  | first :: rest => first.leaves ++ leavesOfList rest

end

mutual

theorem leaves_sublist_nodes : ∀ found : Match, found.leaves.Sublist found.nodes
  | .node cursor pattern children => by
      rw [leaves, nodes]
      split
      · exact List.singleton_sublist.mpr List.mem_cons_self
      · exact (leavesOfList_sublist children).cons cursor

theorem leavesOfList_sublist : ∀ matches_ : List Match,
    (leavesOfList matches_).Sublist (nodesOfList matches_)
  | [] => List.Sublist.refl _
  | first :: rest => (leaves_sublist_nodes first).append (leavesOfList_sublist rest)

end

mutual

/-- The captures of a match are those of its captured nodes, added in order. -/
theorem capturesAfter_eq_foldl (bytes : List UInt8) : ∀ (found : Match) (latestFirst : List Capture),
    capturesAfter bytes latestFirst found
      = found.leaves.foldl (fun latestFirst leaf => Capture.add bytes leaf latestFirst) latestFirst
  | .node cursor pattern children, latestFirst => by
      rw [capturesAfter, leaves]
      split
      · rfl
      · exact capturesAfterList_eq_foldl bytes children latestFirst

theorem capturesAfterList_eq_foldl (bytes : List UInt8) : ∀ (matches_ : List Match)
    (latestFirst : List Capture), capturesAfterList bytes latestFirst matches_
      = (leavesOfList matches_).foldl (fun latestFirst leaf => Capture.add bytes leaf latestFirst)
          latestFirst
  | [], latestFirst => rfl
  | first :: rest, latestFirst => by
      rw [capturesAfterList, leavesOfList, List.foldl_append, capturesAfter_eq_foldl bytes first,
        capturesAfterList_eq_foldl bytes rest]

end

end Match

/-- Captures are those of nodes, in order: for each node one of its kind, which begins with its text,
and before it maybe a copy of a type. -/
inductive CapturedInOrder (bytes : List UInt8) : List Cursor → List Capture → Prop where
  | nothing : CapturedInOrder bytes [] []
  | next {leaves : List Cursor} {captures : List Capture} {leaf : Cursor} {copy : Option Capture}
      {more : String} (earlier : CapturedInOrder bytes leaves captures)
      (isType : ∀ capture ∈ copy, capture.kind ∈ Capture.typeNames) :
      CapturedInOrder bytes (leaves ++ [leaf])
        (captures ++ copy.toList ++ [⟨leaf.kind, leaf.textIn bytes ++ more⟩])

namespace CapturedInOrder

variable {bytes : List UInt8} {leaves : List Cursor} {front latestFirst : List Capture}
  {last : Capture} {leaf : Cursor}

theorem append_text (inOrder : CapturedInOrder bytes leaves (front ++ [last])) (text : String) :
    CapturedInOrder bytes leaves (front ++ [{ last with text := last.text ++ text }]) := by
  generalize whole : front ++ [last] = captures at inOrder
  cases inOrder with
  | nothing => simp at whole
  | next earlier isType =>
      obtain ⟨rfl, same⟩ := List.append_inj' whole rfl
      obtain rfl := List.singleton_inj.mp same
      rw [String.append_assoc]
      exact .next earlier isType

/-- What notes pointers leaves captures in order: at most it adds a copy of a type, or text to the latest
capture. -/
theorem notePointers (inOrder : CapturedInOrder bytes leaves latestFirst.reverse) (kind : String)
    (depth : Nat) : ∃ captures, ∃ copy : Option Capture, CapturedInOrder bytes leaves captures ∧
      (∀ capture ∈ copy, capture.kind ∈ Capture.typeNames) ∧
      (Capture.notePointers kind depth latestFirst).reverse = captures ++ copy.toList := by
  cases latestFirst with
  | nil => exact ⟨[], none, inOrder, by simp, rfl⟩
  | cons latest earlier =>
      rw [Capture.notePointers]
      split
      · exact ⟨_, none, inOrder, by simp, by simp⟩
      · dsimp only
        split
        · rename_i base isBase
          have found : Capture.latestType? (latest :: earlier) = some base := by
            split at isBase
            · exact isBase
            · cases isBase
          obtain ⟨type, isFirst, rfl⟩ := Option.map_eq_some_iff.mp found
          have isType : type.kind ∈ Capture.typeNames := by
            simpa using List.find?_some isFirst
          refine ⟨_, some ⟨type.kind, _⟩, inOrder, ?_, List.reverse_cons ..⟩
          rintro _ ⟨⟩
          exact isType
        · rw [List.reverse_cons] at inOrder ⊢
          exact ⟨_, none, inOrder.append_text (Capture.stars depth), by simp, by simp⟩

/-- One more node adds its capture at the end. -/
theorem add (inOrder : CapturedInOrder bytes leaves latestFirst.reverse) (leaf : Cursor) :
    CapturedInOrder bytes (leaves ++ [leaf]) (Capture.add bytes leaf latestFirst).reverse := by
  obtain ⟨captures, copy, earlier, isType, noted⟩ :=
    inOrder.notePointers leaf.kind leaf.pointerDepth
  have own : leaf.textIn bytes = leaf.textIn bytes ++ "" := (String.append_empty).symm
  rw [Capture.add, List.reverse_cons, noted]
  change CapturedInOrder bytes _ (_ ++ [⟨leaf.kind, leaf.textIn bytes⟩])
  rw [own]
  exact .next earlier isType

theorem foldl_add (inOrder : CapturedInOrder bytes leaves latestFirst.reverse) (more : List Cursor) :
    CapturedInOrder bytes (leaves ++ more)
      (more.foldl (fun latestFirst leaf => Capture.add bytes leaf latestFirst) latestFirst).reverse := by
  induction more generalizing leaves latestFirst with
  | nil => simpa using inOrder
  | cons leaf rest ih =>
      have later := ih (inOrder.add leaf)
      rwa [List.append_assoc, List.singleton_append] at later

end CapturedInOrder

theorem Match.captures_inOrder (found : Match) (bytes : List UInt8) :
    CapturedInOrder bytes found.leaves (found.captures bytes) := by
  have none_ : CapturedInOrder bytes [] (List.reverse []) := .nothing
  rw [captures, capturesAfter_eq_foldl]
  exact none_.foldl_add found.leaves

/-! ### What is returned -/

/-- Every match that is returned for a node and a pattern stands for this node and this pattern, and covers
its shape at every level. So its nodes are different nodes below the node, in preorder, and its captures
are those of nodes of the match, in the same order. -/
theorem Pattern.Matches.covers_in_order {enclosing : Option Pattern} {pattern : Pattern} {cursor : Cursor}
    {found : Match} (isMatch : Matches enclosing pattern cursor found) :
    found.cursor = cursor ∧ found.pattern = pattern ∧ pattern.head.accepts cursor.kind = true ∧
      found.Covers enclosing ∧
      found.nodes.Sublist cursor.preorder ∧
      (found.nodes.Pairwise fun first second => first.number < second.number) ∧ found.nodes.Nodup ∧
      found.leaves.Sublist found.nodes ∧
      ∀ bytes, CapturedInOrder bytes found.leaves (found.captures bytes) := by
  have reads := isMatch.reads
  have covers := reads.any.covers
  obtain ⟨isCursor, isPattern⟩ := reads.cursor_eq
  have inTree : found.nodes.Sublist cursor.preorder := isCursor ▸ covers.nodes_sublist
  have ordered : found.nodes.Pairwise fun first second => first.number < second.number := by
    have increasing : (cursor.preorder.map Cursor.number).Pairwise (· < ·) := by
      rw [Cursor.map_number_preorder]
      exact List.pairwise_lt_range'
    exact (List.pairwise_map.mp increasing).sublist inTree
  have distinct : found.nodes.Nodup := by
    refine ordered.imp ?_
    rintro first _ before rfl
    exact Nat.lt_irrefl _ before
  exact ⟨isCursor, isPattern, reads.accepts, covers, inTree, ordered, distinct,
    found.leaves_sublist_nodes, found.captures_inOrder⟩

/-- The declarator `*const /**/ *p` of a defined type, with a comment in it. -/
def commentedPointers : Document where
  bytes := "*const /**/ *p".toUTF8.toList
  tree := .node ⟨"pointer_declarator", 0, 14, none⟩ [
    .node ⟨"type_qualifier", 1, 6, none⟩ [], .node ⟨"comment", 7, 11, none⟩ [],
    .node ⟨"pointer_declarator", 12, 14, none⟩ [.node ⟨"type_identifier", 13, 14, none⟩ []]]
  hasError := false

/-- The comment is passed over; the inner pointer covers the shape of the outer one. -/
theorem Pattern.Matches.covers_in_order_commentedPointers :
    let pattern := Rules.pointersTo "type_identifier"
    ∃ found, Matches none pattern (.root commentedPointers.tree) found ∧ found.Covers none ∧
      found.nodes.map Cursor.number = [0, 1, 3, 4] ∧ found.leaves.map Cursor.kind = ["type_identifier"] ∧
      CapturedInOrder commentedPointers.bytes found.leaves [⟨"type_identifier", "p"⟩] := by
  intro pattern
  have finds : ∃ found final, pattern.findLazily .empty none (.root commentedPointers.tree)
      = .ok (some found, final) ∧ found.nodes.map Cursor.number = [0, 1, 3, 4] ∧
      found.leaves.map Cursor.kind = ["type_identifier"] ∧
      found.captures commentedPointers.bytes = [⟨"type_identifier", "p"⟩] :=
    ⟨_, _, rfl, by decide +kernel, by decide +kernel, by decide +kernel⟩
  obtain ⟨found, final, isFound, numbers, kinds, captures⟩ := finds
  have isMatch : Matches none pattern (.root commentedPointers.tree) found := .onDemand isFound
  obtain ⟨_, _, _, covers, _, _, _, _, inOrder⟩ := isMatch.covers_in_order
  exact ⟨found, isMatch, covers, numbers, kinds, captures ▸ inOrder commentedPointers.bytes⟩

end HeaderBindings
