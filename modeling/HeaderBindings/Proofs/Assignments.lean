/-
Module: HeaderBindings.Proofs.Assignments
Purpose: In the default grammar no cut of children among patterns is worse than another: if children can
  be read by any cuts, they are found by the first ones, and what is captured is the same.
Main exports: Cut.exists_first, Pattern.Uncommitted, Pattern.Reads.exists_first,
  Rules.find_iff_reads
-/
import HeaderBindings.Proofs.AlphabetHistory
import HeaderBindings.Proofs.CaptureWalk

namespace HeaderBindings

/-- Where there is a cut, there is a first one: the one that a regular expression finds. -/
theorem Cut.exists_first {items : List (List Pattern)} {kinds : List String} {shares : List Share}
    (cut : Cut items kinds shares) : ∃ first, FirstCut items kinds first := by
  have named : Regex.Named (Pattern.addKinds .empty items.flatten) items := by
    intro item isItem child isChild kind isKind
    have inItems := List.mem_flatten.mpr ⟨item, isItem, isChild⟩
    exact Pattern.mem_kinds_addKinds .empty inItems isKind
  have matched := (Regex.isSome_spans?_iff named kinds).mpr ⟨shares, cut⟩
  obtain ⟨spans, found⟩ := Option.isSome_iff_exists.mp matched
  obtain ⟨first, isFirst, _⟩ := (Regex.spans?_eq_some_iff named kinds spans).mp found
  exact ⟨first, isFirst⟩

section

variable {child : Pattern} {items : List (List Pattern)} {kind : String} {kinds : List String}
  {shares : List Share}

theorem Cut.skip (allowed : child.head.quantifier.Allows 0) (others : Cut items kinds shares) :
    Cut ([child] :: items) kinds (⟨0, 0⟩ :: shares) := by
  have consumed : child.Consumes [] := ⟨allowed, by simp⟩
  exact .take rfl consumed others

theorem Cut.single (allowed : child.head.quantifier.Allows 1) (accepts : child.head.accepts kind = true)
    (others : Cut items kinds shares) : Cut ([child] :: items) (kind :: kinds) (⟨0, 1⟩ :: shares) := by
  have consumed : child.Consumes [kind] := ⟨allowed, by simpa using accepts⟩
  exact .take rfl consumed others

end

/-! ### Siblings among which a choice does not matter -/

namespace Pattern

/-- A pattern that says nothing of the children of a node, whatever shape it stands in. -/
def Bare (pattern : Pattern) : Prop :=
  pattern.head.recursive = false ∧ pattern.children.isEmpty = true

instance (pattern : Pattern) : Decidable pattern.Bare :=
  inferInstanceAs (Decidable (_ ∧ _))

/-- A pattern in which siblings that name one kind are the same, or say nothing of a node but its
kind. -/
def Uncommitted (top : Pattern) : Prop :=
  ∀ around ∈ top.descendants, ∀ one ∈ around.children, ∀ other ∈ around.children,
    ∀ kind ∈ one.head.kinds, kind ∈ other.head.kinds → one = other ∨ other.Bare

instance (top : Pattern) : Decidable top.Uncommitted :=
  inferInstanceAs (Decidable (∀ around ∈ _, ∀ one ∈ _, ∀ other ∈ _, ∀ kind ∈ _, _ → _))

theorem Bare.reads {pattern : Pattern} {enclosing : Option Pattern} {cursor : Cursor} {cuts : Cutting}
    (bare : pattern.Bare) (accepts : pattern.head.accepts cursor.kind = true) :
    Reads cuts enclosing pattern cursor (.node cursor pattern []) := by
  apply Reads.leaf accepts
  rw [Pattern.shape, bare.1]
  exact List.isEmpty_iff.mp bare.2

variable {top : Pattern}

mutual

/-- What is read by any cuts is also read by first ones. -/
theorem Reads.exists_first (legible : top.Legible) (uncommitted : top.Uncommitted)
    {enclosing : Option Pattern} {pattern : Pattern} {cursor : Cursor} {found : Match}
    (place : Place top enclosing pattern) : Reads Cut enclosing pattern cursor found →
    ∃ first, Reads FirstCut enclosing pattern cursor first
  | .leaf accepts childless => ⟨_, .leaf accepts childless⟩
  | .node accepts shaped cut children => by
      have inShape := (place.shape legible).1
      obtain ⟨first, isFirst⟩ := cut.exists_first
      have parts : ∀ shares, ∀ part ∈ takers (childItems (pattern.shape enclosing).children) shares,
          part ∈ (pattern.shape enclosing).children := by
        intro shares part member
        have inItems := Cut.mem_takers member
        rwa [flatten_childItems] at inItems
      have fits := List.forall₂_map_right_iff.mp isFirst.isCut.accepts_takers
      obtain ⟨below, reads⟩ :=
        children.exists_first legible uncommitted inShape (parts _) (parts first) fits
      exact ⟨_, .node accepts shaped isFirst reads⟩

/-- Siblings that some children of a shape read are read by others that accept them. -/
theorem ReadsAll.exists_first (legible : top.Legible) (uncommitted : top.Uncommitted)
    {shape : Pattern} (inTop : shape ∈ top.descendants) {given chosen : List Pattern}
    {cursors : List Cursor} {found : List Match} (inShape : ∀ part ∈ given, part ∈ shape.children)
    (chosenInShape : ∀ part ∈ chosen, part ∈ shape.children)
    (fits : List.Forall₂ (fun part child => part.head.accepts (Cursor.kind child) = true) chosen cursors) :
    ReadsAll Cut shape given cursors found →
    ∃ first, ReadsAll FirstCut shape chosen cursors first
  | .nil => by
      cases fits
      exact ⟨[], .nil⟩
  | @ReadsAll.cons _ _ part _ child _ _ _ head tail => by
      cases fits with
      | @cons other _ others _ accepts later =>
          rw [List.forall_mem_cons] at inShape chosenInShape
          obtain ⟨rest, restReads⟩ :=
            tail.exists_first legible uncommitted inTop inShape.2 chosenInShape.2 later
          have named := fun part isPart => (legible.below shape inTop part isPart).named
          have kindOfPart := (Head.accepts_iff (named part inShape.1) _).mp head.accepts
          have kindOfOther := (Head.accepts_iff (named other chosenInShape.1) _).mp accepts
          rcases uncommitted shape inTop part inShape.1 other chosenInShape.1 _ kindOfPart kindOfOther with
            rfl | bare
          · have place : Place top (some shape) part := ⟨inTop, inShape.1⟩
            obtain ⟨one, reads⟩ := head.exists_first legible uncommitted place
            exact ⟨one :: rest, .cons reads restReads⟩
          · exact ⟨_ :: rest, .cons (bare.reads accepts) restReads⟩

end

end Pattern

/-! ### The default grammar -/

namespace Rules

open Pattern

theorem uncommitted_of_mem_shapeList : ∀ shape ∈ shapeList, shape.1.Uncommitted := by
  decide

/-- A registered pattern of the default grammar finds a match in a node exactly if there is any reading
of the node, whatever cuts of children it takes, and all readings have the captures of the match. -/
theorem find_iff_reads {entry : Entry Action} (registered : entry ∈ table.entries) {later : Alphabet}
    (isLater : alphabet.Later later) (cursor : Cursor) :
    ((entry.matcher.find? later none cursor).isSome = true ↔
      ∃ found, Reads Cut none entry.matcher.pattern cursor found) ∧
    ∀ first found, entry.matcher.find? later none cursor = some first →
      Reads Cut none entry.matcher.pattern cursor found →
      ∀ bytes, found.captures bytes = first.captures bytes := by
  obtain ⟨shape, isShape, compiled, compiledFrom, _⟩ := exists_shape_of_mem_entries registered
  have stands : Matcher.Stands later none entry.matcher.pattern none entry.matcher :=
    ⟨compiled.of_extends isLater.extends, rfl, by simp, rfl⟩
  have legible := legible_of_mem_shapeList shape isShape
  have uncommitted := uncommitted_of_mem_shapeList shape isShape
  rw [← compiledFrom] at legible uncommitted
  have top : Place entry.matcher.pattern none entry.matcher.pattern := rfl
  constructor
  · constructor
    · intro isSome
      obtain ⟨first, isFirst⟩ := Option.isSome_iff_exists.mp isSome
      exact ⟨first, (stands.find?_eq_some_iff.mp isFirst).any⟩
    · rintro ⟨found, reads⟩
      obtain ⟨first, firstReads⟩ := reads.exists_first legible uncommitted top
      rw [stands.find?_eq_some_iff.mpr firstReads]
      rfl
  · intro first found isFirst reads bytes
    have firstReads := (stands.find?_eq_some_iff.mp isFirst).any
    rw [reads.captures legible, firstReads.captures legible]

/-- The tree of `typedef A *B;`. -/
def pointerTypedef : Cursor :=
  .root (.node ⟨"type_definition", 0, 13, none⟩
    [.node ⟨"type_identifier", 8, 9, some "type"⟩ [],
      .node ⟨"pointer_declarator", 10, 12, some "declarator"⟩
        [.node ⟨"type_identifier", 11, 12, some "declarator"⟩ []]])

/-- Any leaf that a cut gives the first name to may read it. -/
theorem reads_pointerTypedef {shares : List Share} {kinds : List String}
    (named : "type_identifier" ∈ kinds)
    (cut : Cut (childItems typedefPattern.children) ["type_identifier", "pointer_declarator"] shares)
    (taken : takers (childItems typedefPattern.children) shares
      = [leaf kinds .zeroOrOne, pointersTo "type_identifier"]) :
    ∃ found, Reads Cut none typedefPattern pointerTypedef found ∧
      found.children.map Match.pattern = [leaf kinds .zeroOrOne, pointersTo "type_identifier"] := by
  obtain ⟨typeName, pointer, name, children, inside, isType, isPointer, isName⟩ :
      ∃ typeName pointer name, pointerTypedef.named = [typeName, pointer] ∧ pointer.named = [name] ∧
        typeName.kind = "type_identifier" ∧ pointer.kind = "pointer_declarator" ∧
        name.kind = "type_identifier" := ⟨_, _, _, rfl, rfl, rfl, rfl, rfl⟩
  have bare : ∀ kinds quantifier, (leaf kinds quantifier).Bare := fun _ _ => ⟨rfl, rfl⟩
  have below : ∃ found, found.pattern = pointersTo "type_identifier" ∧
      Reads Cut (some typedefPattern) (pointersTo "type_identifier") pointer found := by
    have accepts : (pointersTo "type_identifier").head.accepts pointer.kind = true := by
      rw [isPointer]
      rfl
    have nameAccepted : (leaf ["type_identifier"] .zeroOrOne).head.accepts name.kind = true := by
      rw [isName]
      rfl
    have nameCut : Cut (childItems (pointersTo "type_identifier").children)
        (pointer.named.map Cursor.kind) [⟨0, 0⟩, ⟨0, 0⟩, ⟨0, 1⟩] := by
      rw [inside, List.map_singleton, isName]
      exact .skip trivial (.skip (Nat.zero_le 1) (.single Nat.le.refl rfl .done))
    have nameReads : ReadsAll Cut (pointersTo "type_identifier") [leaf ["type_identifier"] .zeroOrOne]
        pointer.named [.node name (leaf ["type_identifier"] .zeroOrOne) []] := by
      rw [inside]
      exact .cons ((bare _ _).reads nameAccepted) .nil
    exact ⟨_, rfl, .node accepts (List.cons_ne_nil _ _) nameCut nameReads⟩
  obtain ⟨found, isFound, foundReads⟩ := below
  have typeAccepted : (leaf kinds .zeroOrOne).head.accepts typeName.kind = true := by
    rw [isType]
    simp [Head.accepts, named]
  have partReads : ReadsAll Cut typedefPattern (takers (childItems typedefPattern.children) shares)
      pointerTypedef.named [.node typeName (leaf kinds .zeroOrOne) [], found] := by
    rw [children, taken]
    exact .cons ((bare _ _).reads typeAccepted) (.cons foundReads .nil)
  refine ⟨_, .node rfl (List.cons_ne_nil _ _) ?_ partReads, ?_⟩
  · rw [children, List.map_cons, List.map_singleton, isType, isPointer]
    exact cut
  · simp [Match.children, Match.pattern, ← isFound]

/-- Whether the first name is taken for the type or for the defined name, the captures are those of the
match. -/
theorem find_iff_reads_pointerTypedef :
    ∃ entry ∈ table.entries, ∃ first one other,
      entry.matcher.pattern = typedefPattern ∧
      entry.matcher.find? alphabet none pointerTypedef = some first ∧
      Reads Cut none typedefPattern pointerTypedef one ∧
      Reads Cut none typedefPattern pointerTypedef other ∧
      one.children.map Match.pattern ≠ other.children.map Match.pattern ∧
      one.captures "typedef A *B;".toUTF8.toList = first.captures "typedef A *B;".toUTF8.toList ∧
      other.captures "typedef A *B;".toUTF8.toList = first.captures "typedef A *B;".toUTF8.toList := by
  obtain ⟨entry, registered, _, isTypedef, _⟩ :
      ∃ entry ∈ table.entries, IsEntryOf alphabet entry (typedefPattern, .declareAlias) := by
    have entries := table_entries
    unfold shapeList at entries
    generalize table.entries = listed at entries ⊢
    obtain _ | ⟨_, _ | ⟨isEntry, _⟩⟩ := entries
    exact ⟨_, by simp, isEntry⟩
  have allowed : Quantifier.zeroOrOne.Allows 0 ∧ Quantifier.zeroOrOne.Allows 1 :=
    ⟨Nat.zero_le 1, Nat.le.refl⟩
  obtain ⟨one, oneReads, onePatterns⟩ := reads_pointerTypedef
    (List.mem_cons_of_mem "primitive_type" List.mem_cons_self)
    (.skip trivial (.single allowed.2 rfl (.skip allowed.1 (.skip allowed.1 (.skip allowed.1
      (.single allowed.2 rfl .done)))))) rfl
  obtain ⟨other, otherReads, otherPatterns⟩ := reads_pointerTypedef List.mem_cons_self
    (.skip trivial (.skip allowed.1 (.skip allowed.1 (.skip allowed.1 (.single allowed.2 rfl
      (.single allowed.2 rfl .done)))))) rfl
  obtain ⟨finds, captures⟩ := find_iff_reads registered .same pointerTypedef
  rw [isTypedef] at finds captures
  obtain ⟨first, isFirst⟩ := Option.isSome_iff_exists.mp (finds.mpr ⟨one, oneReads⟩)
  refine ⟨entry, registered, first, one, other, isTypedef, isFirst, oneReads, otherReads, ?_,
    captures first one isFirst oneReads _, captures first other isFirst otherReads _⟩
  rw [onePatterns, otherPatterns]
  decide

end Rules

end HeaderBindings
