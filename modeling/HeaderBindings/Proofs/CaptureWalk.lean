/-
Module: HeaderBindings.Proofs.CaptureWalk
Purpose: What is captured from a claimed node depends on its tree alone: the captures are those of a walk
  that knows no pattern.
Main exports: Capture.walk, Cursor.capturesAfter, Pattern.Legible, Pattern.Reads.captures,
  Rules.captures_of_claim, Rules.finds_of_claim
-/
import HeaderBindings.Matching.Capture
import HeaderBindings.Proofs.DefaultGrammar
import HeaderBindings.Proofs.NodeReadings

namespace HeaderBindings

/-! ### The walk -/

namespace Capture

/-- Kinds of nodes that are not captured, nor is anything below them. -/
def silentKinds : List String := ["type_qualifier", "storage_class_specifier"]

mutual

/-- Captures, latest first, with those of a tree below some frames: one for the root if it is
captured, and otherwise those of the trees below it, unless the root is silent. -/
def walk (bytes : List UInt8) (above : List Frame) (latestFirst : List Capture) :
    Tree → List Capture
  | .node label trees =>
      if isCaptured label.kind then add bytes ⟨.node label trees, above⟩ latestFirst
      else if silentKinds.contains label.kind then latestFirst
      else walkAll bytes (.node label trees) above latestFirst 0 trees

/-- Captures, latest first, with those of sibling trees that are not comments, the first of which has
an index below a parent. -/
def walkAll (bytes : List UInt8) (parent : Tree) (above : List Frame)
    (latestFirst : List Capture) : Nat → List Tree → List Capture
  | _, [] => latestFirst
  | index, tree :: rest =>
      if tree.isComment then walkAll bytes parent above latestFirst (index + 1) rest
      else walkAll bytes parent above (walk bytes (⟨parent, index⟩ :: above) latestFirst tree)
        (index + 1) rest

end

end Capture

namespace Cursor

/-- Captures, latest first, with those of a node. -/
def capturesAfter (bytes : List UInt8) (latestFirst : List Capture) (cursor : Cursor) :
    List Capture :=
  Capture.walk bytes cursor.above latestFirst cursor.focus

variable {bytes : List UInt8} {cursor : Cursor}

theorem capturesAfter_captured (captured : Capture.isCaptured cursor.kind = true)
    (latestFirst : List Capture) :
    cursor.capturesAfter bytes latestFirst = Capture.add bytes cursor latestFirst := by
  rcases cursor with ⟨⟨label, trees⟩, above⟩
  simp only [kind, Tree.kind, Tree.label] at captured
  simp only [capturesAfter, Capture.walk, captured, if_true]

theorem capturesAfter_silent (silent : cursor.kind ∈ Capture.silentKinds)
    (latestFirst : List Capture) : cursor.capturesAfter bytes latestFirst = latestFirst := by
  have uncaptured : ∀ kind ∈ Capture.silentKinds, Capture.isCaptured kind = false := by decide
  have notHere := uncaptured _ silent
  rcases cursor with ⟨⟨label, trees⟩, above⟩
  simp only [kind, Tree.kind, Tree.label] at silent notHere
  simp [capturesAfter, Capture.walk, notHere, silent]

theorem walkAll_eq (parent : Tree) (above : List Frame) (latestFirst : List Capture) (index : Nat)
    (trees : List Tree) :
    Capture.walkAll bytes parent above latestFirst index trees
      = (namedFrom parent above index trees).foldl (capturesAfter bytes) latestFirst := by
  induction trees generalizing latestFirst index with
  | nil => rfl
  | cons tree rest ih =>
      rw [namedFrom_cons, Capture.walkAll]
      cases tree.isComment with
      | true => exact ih latestFirst (index + 1)
      | false => exact ih _ (index + 1)

/-- The captures of a node that is neither captured nor silent are those of its children, from left
to right. -/
theorem capturesAfter_children (captured : Capture.isCaptured cursor.kind = false)
    (silent : cursor.kind ∉ Capture.silentKinds) (latestFirst : List Capture) :
    cursor.capturesAfter bytes latestFirst
      = cursor.named.foldl (capturesAfter bytes) latestFirst := by
  rcases cursor with ⟨⟨label, trees⟩, above⟩
  simp only [kind, Tree.kind, Tree.label] at captured silent
  simp [capturesAfter, Capture.walk, captured, silent, named_node, walkAll_eq]

end Cursor

/-! ### Legible patterns

The walk looks at kinds only. It agrees with a pattern that says something of the children of every
node that is neither captured nor silent, and nothing of those of a silent one. -/

namespace Pattern

/-- A shape says something of the children of a node that a pattern names, if the walk looks at them,
and nothing if it passes the node over. -/
structure AgreesWithWalk (pattern shape : Pattern) : Prop where
  named : pattern.head.kinds ≠ []
  shaped : ∀ kind ∈ pattern.head.kinds, Capture.isCaptured kind = true ∨
    (kind ∈ Capture.silentKinds ↔ shape.children = [])

/-- A pattern that agrees with the walk at every place in it. -/
structure Legible (pattern : Pattern) : Prop where
  top : pattern.head.recursive = false ∧ pattern.AgreesWithWalk pattern
  below : ∀ around ∈ pattern.descendants, ∀ part ∈ around.children,
    part.AgreesWithWalk (part.shape (some around))

instance (pattern shape : Pattern) : Decidable (pattern.AgreesWithWalk shape) :=
  decidable_of_iff (pattern.head.kinds ≠ [] ∧ ∀ kind ∈ pattern.head.kinds,
      Capture.isCaptured kind = true ∨
        (kind ∈ Capture.silentKinds ↔ shape.children.isEmpty = true)) <| by
    simp only [List.isEmpty_iff]
    exact ⟨fun agrees => ⟨agrees.1, agrees.2⟩, fun agrees => ⟨agrees.named, agrees.shaped⟩⟩

instance (pattern : Pattern) : Decidable pattern.Legible :=
  decidable_of_iff ((pattern.head.recursive = false ∧ pattern.AgreesWithWalk pattern) ∧
      ∀ around ∈ pattern.descendants, ∀ part ∈ around.children,
        part.AgreesWithWalk (part.shape (some around))) <|
    ⟨fun legible => ⟨legible.1, legible.2⟩, fun legible => ⟨legible.top, legible.below⟩⟩

theorem mem_descendants_self (pattern : Pattern) : pattern ∈ pattern.descendants := by
  cases pattern with
  | node head children => exact List.mem_cons_self

mutual

theorem mem_descendants_of_child : ∀ (pattern : Pattern) {around part : Pattern},
    around ∈ pattern.descendants → part ∈ around.children → part ∈ pattern.descendants
  | node head children, around, part, isAround, isPart => by
      rcases List.mem_cons.mp isAround with rfl | below
      · refine List.mem_cons_of_mem _ (mem_descendantsOfList.mpr ⟨part, isPart, ?_⟩)
        exact mem_descendants_self part
      · exact List.mem_cons_of_mem _ (mem_descendantsOfList_of_child children below isPart)

theorem mem_descendantsOfList_of_child : ∀ (patterns : List Pattern) {around part : Pattern},
    around ∈ descendantsOfList patterns → part ∈ around.children →
      part ∈ descendantsOfList patterns
  | [], _, _, isAround, _ => by cases isAround
  | first :: rest, around, part, isAround, isPart => by
      rcases List.mem_append.mp isAround with inFirst | inRest
      · exact List.mem_append_left _ (mem_descendants_of_child first inFirst isPart)
      · exact List.mem_append_right _ (mem_descendantsOfList_of_child rest inRest isPart)

end

/-- A place in a pattern: the pattern itself, or a child of one below it. -/
def Place (top : Pattern) (enclosing : Option Pattern) (pattern : Pattern) : Prop :=
  match enclosing with
  | none => pattern = top
  | some around => around ∈ top.descendants ∧ pattern ∈ around.children

variable {top pattern : Pattern} {enclosing : Option Pattern}

theorem Place.shape (place : Place top enclosing pattern) (legible : top.Legible) :
    pattern.shape enclosing ∈ top.descendants ∧
      pattern.AgreesWithWalk (pattern.shape enclosing) := by
  cases enclosing with
  | none =>
      obtain rfl : pattern = top := place
      have own : pattern.shape none = pattern := by simp [Pattern.shape]
      rw [own]
      exact ⟨mem_descendants_self pattern, legible.top.2⟩
  | some around =>
      obtain ⟨isAround, isPart⟩ := place
      refine ⟨?_, legible.below around isAround pattern isPart⟩
      unfold Pattern.shape
      split
      · exact isAround
      · exact mem_descendants_of_child top isAround isPart

theorem Place.child (place : Place top enclosing pattern) (legible : top.Legible) {part : Pattern}
    (member : part ∈ (pattern.shape enclosing).children) :
    Place top (some (pattern.shape enclosing)) part :=
  ⟨(place.shape legible).1, member⟩

end Pattern

/-! ### The captures of a match -/

namespace Pattern

variable {top : Pattern} {bytes : List UInt8}

mutual

/-- However a legible pattern reads a node, it is captured as the walk captures it. -/
theorem Reads.capturesAfter (legible : top.Legible) {enclosing : Option Pattern} {pattern : Pattern}
    {cursor : Cursor} {found : Match} (latestFirst : List Capture)
    (place : Place top enclosing pattern) : Reads Cut enclosing pattern cursor found →
    found.capturesAfter bytes latestFirst = cursor.capturesAfter bytes latestFirst
  | .leaf accepts childless => by
      obtain ⟨named, shaped⟩ := (place.shape legible).2
      cases captured : Capture.isCaptured cursor.kind with
      | true => rw [Match.capturesAfter, if_pos captured, Cursor.capturesAfter_captured captured]
      | false =>
          have agrees := shaped _ ((Head.accepts_iff named _).mp accepts)
          rw [captured, Bool.false_eq_true, false_or] at agrees
          rw [Match.capturesAfter, captured, Match.capturesAfterList,
            Cursor.capturesAfter_silent (agrees.mpr childless)]
          rfl
  | @Reads.node _ _ _ _ shares _ accepts shaped _ children => by
      obtain ⟨named, agreesAt⟩ := (place.shape legible).2
      cases captured : Capture.isCaptured cursor.kind with
      | true => rw [Match.capturesAfter, if_pos captured, Cursor.capturesAfter_captured captured]
      | false =>
          have agrees := agreesAt _ ((Head.accepts_iff named _).mp accepts)
          rw [captured, Bool.false_eq_true, false_or] at agrees
          have loud : cursor.kind ∉ Capture.silentKinds := mt agrees.mp shaped
          have places : ∀ part ∈ takers (childItems (pattern.shape enclosing).children) shares,
              Place top (some (pattern.shape enclosing)) part := by
            intro part member
            have inItems := Cut.mem_takers member
            rw [flatten_childItems] at inItems
            exact place.child legible inItems
          rw [Match.capturesAfter, captured, Cursor.capturesAfter_children captured loud]
          exact children.capturesAfter legible latestFirst places

/-- The same for siblings. -/
theorem ReadsAll.capturesAfter (legible : top.Legible) {shape : Pattern} {patterns : List Pattern}
    {cursors : List Cursor} {found : List Match} (latestFirst : List Capture)
    (places : ∀ part ∈ patterns, Place top (some shape) part) :
    ReadsAll Cut shape patterns cursors found →
    Match.capturesAfterList bytes latestFirst found
      = cursors.foldl (Cursor.capturesAfter bytes) latestFirst
  | .nil => rfl
  | .cons head tail => by
      rw [List.forall_mem_cons] at places
      rw [Match.capturesAfterList, tail.capturesAfter legible _ places.2,
        head.capturesAfter legible latestFirst places.1, List.foldl_cons]

end

/-- However a legible pattern reads a node, the captures are those of the walk. -/
theorem Reads.captures {pattern : Pattern} {cursor : Cursor} {found : Match} (legible : pattern.Legible)
    (reads : Reads Cut none pattern cursor found) (bytes : List UInt8) :
    found.captures bytes = (cursor.capturesAfter bytes []).reverse := by
  have top : Place pattern none pattern := rfl
  rw [Match.captures, reads.capturesAfter legible [] top]

end Pattern

/-! ### The default grammar -/

namespace Rules

theorem legible_of_mem_shapeList : ∀ shape ∈ shapeList, shape.1.Legible := by
  decide

/-- The matcher that claims a node stands for a shape of the grammar, which finds the node. -/
theorem stands_of_claim {cursor : Cursor} {claim : Claim Action}
    (claimed : table.claim? alphabet cursor = some claim) :
    ∃ shape ∈ shapeList, claim.entry.action = some shape.2 ∧
      Matcher.Stands alphabet none shape.1 none claim.entry.matcher ∧
      claim.entry.matcher.find? alphabet none cursor = some claim.found := by
  obtain ⟨found, _, compiled, shape, isShape, compiledFrom, action⟩ := claim_of_claim? claimed
  exact ⟨shape, isShape, action, compiled.stands compiledFrom, found⟩

/-- A claim of the default grammar captures what the walk does. -/
theorem captures_of_claim {cursor : Cursor} {claim : Claim Action}
    (claimed : table.claim? alphabet cursor = some claim) (bytes : List UInt8) :
    claim.found.captures bytes = (cursor.capturesAfter bytes []).reverse := by
  obtain ⟨shape, isShape, _, stands, found⟩ := stands_of_claim claimed
  have reads := stands.find?_eq_some_iff.mp found
  exact reads.any.captures (legible_of_mem_shapeList shape isShape) bytes

/-- The shape with the action of a claim finds the claimed node. -/
theorem finds_of_claim {cursor : Cursor} {claim : Claim Action} {pattern : Pattern} {action : Action}
    (claimed : table.claim? alphabet cursor = some claim) (taken : claim.entry.action = some action)
    (isShape : (pattern, action) ∈ shapeList) : pattern.Finds alphabet none cursor := by
  have distinct : ∀ one ∈ shapeList, ∀ other ∈ shapeList, one.2 = other.2 → one.1 = other.1 := by
    decide
  obtain ⟨shape, isOther, otherAction, stands, found⟩ := stands_of_claim claimed
  have same : shape.2 = action := Option.some.inj (otherAction.symm.trans taken)
  have samePattern : shape.1 = pattern := distinct shape isOther _ isShape same
  exact ⟨none, _, samePattern ▸ stands, by rw [found]; rfl⟩

end Rules

end HeaderBindings
