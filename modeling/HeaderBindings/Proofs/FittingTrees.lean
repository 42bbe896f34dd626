/-
Module: HeaderBindings.Proofs.FittingTrees
Purpose: Which trees fit a shape, told without frames and without matches: a tree that the default grammar
  claims fits its shape and conversely; and what may change in a tree that fits.
Main exports: Tree.Fits, Pattern.Finds.fits, Rules.claim_of_fits, Respelled, Respelled.fits,
  Tree.Fits.change, Cut.drop_last, Cut.append_last, Cut.eq_nil_of_alone
-/
import HeaderBindings.Proofs.ApartShapes
import HeaderBindings.Proofs.Assignments
import HeaderBindings.Proofs.CommentedTrees

namespace HeaderBindings

open Pattern

/-! ### Trees that fit a shape -/

namespace Tree

/-- A tree fits a shape: the shape has no children, or those of the tree that are no comments are cut among
them, and each is given to one that accepts it, whose shape it fits in turn. -/
inductive Fits : Pattern → Tree → Prop where
  | leaf {shape : Pattern} {tree : Tree} (childless : shape.children = []) : Fits shape tree
  | node {shape : Pattern} {tree : Tree} {shares : List Share} {taker : Tree → Pattern}
      (cut : Cut (childItems shape.children) (namedKinds tree.children) shares)
      (isPart : ∀ child ∈ tree.named, taker child ∈ shape.children)
      (accepts : ∀ child ∈ tree.named, (taker child).head.accepts child.kind = true)
      (below : ∀ child ∈ tree.named, Fits ((taker child).shape (some shape)) child) : Fits shape tree

/-- A tree is accepted by a child pattern of a shape, and fits the shape of that. -/
def FitsPart (shape part : Pattern) (tree : Tree) : Prop :=
  part ∈ shape.children ∧ part.head.accepts tree.kind = true ∧ tree.Fits (part.shape (some shape))

namespace Fits

variable {shape : Pattern} {tree : Tree}

theorem parts (fits : tree.Fits shape) (shaped : shape.children ≠ []) :
    (∃ shares, Cut (childItems shape.children) (namedKinds tree.children) shares) ∧
      ∀ child ∈ tree.named, ∃ part, child.FitsPart shape part := by
  cases fits with
  | leaf childless => exact absurd childless shaped
  | node cut isPart accepts below =>
      exact ⟨⟨_, cut⟩, fun child member =>
        ⟨_, isPart child member, accepts child member, below child member⟩⟩

theorem of_parts {shares : List Share}
    (cut : Cut (childItems shape.children) (namedKinds tree.children) shares)
    (each : ∀ child ∈ tree.named, ∃ part, child.FitsPart shape part) : tree.Fits shape := by
  choose! taker isTaker using each
  exact .node cut (fun child member => (isTaker child member).1)
    (fun child member => (isTaker child member).2.1) fun child member => (isTaker child member).2.2

end Fits

end Tree

/-! ### Nodes that are found -/

theorem Cursor.exists_focus_eq_of_mem_named {cursor : Cursor} {tree : Tree}
    (member : tree ∈ cursor.focus.named) : ∃ child ∈ cursor.named, child.focus = tree := by
  rw [← Cursor.map_focus_named] at member
  exact List.mem_map.mp member

theorem Cursor.focus_mem_named {cursor child : Cursor} (member : child ∈ cursor.named) :
    child.focus ∈ cursor.focus.named := by
  rw [← Cursor.map_focus_named]
  exact List.mem_map_of_mem member

namespace Pattern

variable {alphabet : Alphabet}

/-- A tree that is found fits. -/
theorem Finds.fits {enclosing : Option Pattern} {pattern : Pattern} {cursor : Cursor}
    (finds : pattern.Finds alphabet enclosing cursor) : cursor.focus.Fits (pattern.shape enclosing) := by
  by_cases childless : (pattern.shape enclosing).children = []
  · exact .leaf childless
  · obtain ⟨⟨shares, cut⟩, each⟩ := finds.parts childless
    rw [Cursor.map_kind_named] at cut
    refine .of_parts cut fun tree member => ?_
    obtain ⟨child, inside, rfl⟩ := Cursor.exists_focus_eq_of_mem_named member
    obtain ⟨part, isPart, partFinds⟩ := each child inside
    have lower := Cursor.height_lt_of_mem_named inside
    exact ⟨part, isPart, partFinds.accepts, partFinds.fits⟩
termination_by cursor.focus.height

/-- Siblings are read if each is read by every child pattern of the shape that accepts it. -/
theorem exists_readsAll {shape : Pattern} {patterns : List Pattern} {cursors : List Cursor}
    (accepted : List.Forall₂ (fun part child => part.head.accepts (Cursor.kind child) = true)
      patterns cursors)
    (inShape : ∀ part ∈ patterns, part ∈ shape.children)
    (each : ∀ child ∈ cursors, ∀ part ∈ shape.children, part.head.accepts child.kind = true →
      ∃ found, Reads Cut (some shape) part child found) :
    ∃ found, ReadsAll Cut shape patterns cursors found := by
  induction accepted with
  | nil => exact ⟨[], .nil⟩
  | @cons part child _ _ accepts _ ih =>
      rw [List.forall_mem_cons] at inShape each
      obtain ⟨first, reads⟩ := each.1 part inShape.1 accepts
      obtain ⟨rest, readsRest⟩ := ih inShape.2 each.2
      exact ⟨first :: rest, .cons reads readsRest⟩

end Pattern

/-- A tree that fits is read, if it does not matter which of several siblings reads a node. -/
theorem Tree.Fits.exists_reads {top pattern : Pattern} {enclosing : Option Pattern} {tree : Tree}
    (fits : tree.Fits (pattern.shape enclosing)) (legible : top.Legible) (uncommitted : top.Uncommitted)
    (place : Place top enclosing pattern) (accepts : pattern.head.accepts tree.kind = true)
    (above : List Frame) : ∃ found, Reads Cut enclosing pattern ⟨tree, above⟩ found := by
  generalize isShape : pattern.shape enclosing = shape at fits
  induction fits generalizing pattern enclosing above with
  | leaf childless => exact ⟨_, .leaf accepts (isShape ▸ childless)⟩
  | @node shape tree shares taker cut isPart accepted below ih =>
      subst isShape
      by_cases childless : (pattern.shape enclosing).children = []
      · exact ⟨_, .leaf accepts childless⟩
      have inTop := (place.shape legible).1
      have kinds := Cursor.map_kind_named ⟨tree, above⟩
      rw [← kinds] at cut
      have takersInShape : ∀ part ∈ takers (childItems (pattern.shape enclosing).children) shares,
          part ∈ (pattern.shape enclosing).children := by
        intro part member
        have inItems := Cut.mem_takers member
        rwa [flatten_childItems] at inItems
      obtain ⟨found, reads⟩ := exists_readsAll (List.forall₂_map_right_iff.mp cut.accepts_takers)
        takersInShape fun child member part inShape accepts => by
          have inside : child.focus ∈ tree.named := Cursor.focus_mem_named member
          have own := isPart _ inside
          have named := fun other isOther => (legible.below _ inTop other isOther).named
          have ofTaker := (Head.accepts_iff (named _ own) _).mp (accepted _ inside)
          have ofPart := (Head.accepts_iff (named part inShape) _).mp accepts
          rcases uncommitted _ inTop _ own part inShape _ ofTaker ofPart with rfl | bare
          · exact ih child.focus inside (place.child legible own) accepts child.above rfl
          · exact ⟨_, bare.reads accepts⟩
      exact ⟨_, .node accepts childless cut reads⟩

namespace Rules

/-- A tree that fits a shape of the default grammar is claimed by it, wherever it stands. -/
theorem claim_of_fits {pattern : Pattern} {action : Action} {tree : Tree}
    (isShape : (pattern, action) ∈ shapeList) (accepts : pattern.head.accepts tree.kind = true)
    (fits : tree.Fits pattern) (above : List Frame) :
    ∃ claim, table.claim? alphabet ⟨tree, above⟩ = some claim ∧
      claim.entry.action = some action := by
  have legible := legible_of_mem_shapeList _ isShape
  have uncommitted := uncommitted_of_mem_shapeList _ isShape
  have top : Place pattern none pattern := rfl
  have alone : pattern.shape none = pattern := by simp [Pattern.shape]
  have fitsAlone : tree.Fits (pattern.shape none) := by rwa [alone]
  obtain ⟨found, reads⟩ := fitsAlone.exists_reads legible uncommitted top accepts above
  obtain ⟨first, firstReads⟩ := reads.exists_first legible uncommitted top
  obtain ⟨claim, isClaim, _, action⟩ := claim_of_reads isShape firstReads
  exact ⟨claim, isClaim, action⟩

end Rules

/-! ### Trees that are spelled again -/

/-- A tree, read from some bytes, is spelled again in other bytes: its nodes keep their kinds and fields, and
those that are captured their texts, but not their spans. -/
inductive Respelled (bytes bytes' : List UInt8) : Tree → Tree → Prop where
  | node {label label' : Label} {trees trees' : List Tree} (sameKind : label.kind = label'.kind)
      (sameField : label.field = label'.field)
      (sameText : Capture.isCaptured label.kind = true →
        Text.collapsed (label.textIn bytes) = Text.collapsed (label'.textIn bytes'))
      (children : List.Forall₂ (Respelled bytes bytes') trees trees') :
      Respelled bytes bytes' (.node label trees) (.node label' trees')

namespace Respelled

variable {bytes bytes' : List UInt8} {tree tree' : Tree} {trees trees' : List Tree}

theorem kind_eq (respelled : Respelled bytes bytes' tree tree') : tree.kind = tree'.kind := by
  cases respelled
  assumption

theorem field_eq (respelled : Respelled bytes bytes' tree tree') :
    tree.label.field = tree'.label.field := by
  cases respelled
  assumption

theorem children (respelled : Respelled bytes bytes' tree tree') :
    List.Forall₂ (Respelled bytes bytes') tree.children tree'.children := by
  cases respelled
  assumption

theorem text_eq (respelled : Respelled bytes bytes' tree tree')
    (captured : Capture.isCaptured tree.kind = true) :
    Text.collapsed (tree.label.textIn bytes) = Text.collapsed (tree'.label.textIn bytes') := by
  cases respelled with
  | node _ _ sameText _ => exact sameText captured

theorem isComment_eq (respelled : Respelled bytes bytes' tree tree') :
    tree.isComment = tree'.isComment := by
  rw [Tree.isComment, Tree.isComment, respelled.kind_eq]

theorem filter_named (respelled : List.Forall₂ (Respelled bytes bytes') trees trees') :
    List.Forall₂ (Respelled bytes bytes') (trees.filter fun tree => !tree.isComment)
      (trees'.filter fun tree => !tree.isComment) :=
  List.rel_filter (fun _ _ same => by simp [same.isComment_eq]) respelled

theorem namedKinds_eq (respelled : List.Forall₂ (Respelled bytes bytes') trees trees') :
    namedKinds trees = namedKinds trees' := by
  have kinds : List.Forall₂ (· = ·) (namedKinds trees) (namedKinds trees') :=
    List.rel_map (fun _ _ same => same.kind_eq) (filter_named respelled)
  exact List.forall₂_eq_eq_eq ▸ kinds

theorem exists_of_mem_named (respelled : Respelled bytes bytes' tree tree') {child' : Tree}
    (member : child' ∈ tree'.named) : ∃ child ∈ tree.named, Respelled bytes bytes' child child' := by
  have flipped := List.Forall₂.flip (filter_named respelled.children)
  exact exists_related_of_mem flipped member

/-- Spelled again, a tree fits the same shapes. -/
theorem fits {shape : Pattern} (respelled : Respelled bytes bytes' tree tree') (fits : tree.Fits shape) :
    tree'.Fits shape := by
  induction fits generalizing tree' with
  | leaf childless => exact .leaf childless
  | node cut isPart accepts below ih =>
      rw [namedKinds_eq respelled.children] at cut
      refine .of_parts cut fun child' member => ?_
      obtain ⟨child, inside, same⟩ := respelled.exists_of_mem_named member
      exact ⟨_, isPart child inside, same.kind_eq ▸ accepts child inside, ih child inside same⟩

theorem fitsPart {shape part : Pattern} (respelled : Respelled bytes bytes' tree tree')
    (fits : tree.FitsPart shape part) : tree'.FitsPart shape part :=
  ⟨fits.1, respelled.kind_eq ▸ fits.2.1, respelled.fits fits.2.2⟩

end Respelled

/-! ### One changed child -/

theorem namedKinds_append (first second : List Tree) :
    namedKinds (first ++ second) = namedKinds first ++ namedKinds second := by
  simp [namedKinds]

theorem namedKinds_cons {tree : Tree} (visible : tree.isComment = false) (rest : List Tree) :
    namedKinds (tree :: rest) = tree.kind :: namedKinds rest := by
  simp [namedKinds, visible]

/-- If one child of a tree that fits is exchanged, the tree fits if the new kinds can be cut and the new
child is accepted. -/
theorem Tree.Fits.change {bytes bytes' : List UInt8} {shape : Pattern} {label label' : Label}
    {left left' right right' : List Tree} {child child' : Tree}
    (fits : (Tree.node label (left ++ child :: right)).Fits shape) (shaped : shape.children ≠ [])
    (sameLeft : List.Forall₂ (Respelled bytes bytes') left left')
    (sameRight : List.Forall₂ (Respelled bytes bytes') right right')
    (visible : child.isComment = false) (visible' : child'.isComment = false)
    (recut : ∀ shares, Cut (childItems shape.children)
        (namedKinds left ++ child.kind :: namedKinds right) shares →
      ∃ shares,
        Cut (childItems shape.children) (namedKinds left ++ child'.kind :: namedKinds right) shares)
    (carry : ∀ part, child.FitsPart shape part → ∃ part, child'.FitsPart shape part) :
    (Tree.node label' (left' ++ child' :: right')).Fits shape := by
  obtain ⟨⟨shares, cut⟩, each⟩ := fits.parts shaped
  rw [Tree.children, namedKinds_append, namedKinds_cons visible] at cut
  obtain ⟨shares', cut'⟩ := recut shares cut
  rw [Respelled.namedKinds_eq sameLeft, Respelled.namedKinds_eq sameRight, ← namedKinds_cons visible',
    ← namedKinds_append] at cut'
  simp only [Tree.named, Tree.children, List.filter_append, List.mem_append] at each
  refine .of_parts cut' fun tree member => ?_
  simp only [Tree.named, Tree.children, List.filter_append, List.mem_append] at member
  have sibling : ∀ {trees trees' : List Tree}, List.Forall₂ (Respelled bytes bytes') trees trees' →
      (∀ child ∈ trees.filter fun tree => !tree.isComment, ∃ part, child.FitsPart shape part) →
      tree ∈ trees'.filter (fun tree => !tree.isComment) → ∃ part, tree.FitsPart shape part := by
    intro trees trees' same fit inside
    obtain ⟨other, isOther, respelled⟩ :=
      exists_related_of_mem (List.Forall₂.flip (Respelled.filter_named same)) inside
    obtain ⟨part, fitsPart⟩ := fit other isOther
    exact ⟨part, Respelled.fitsPart respelled fitsPart⟩
  rcases member with onLeft | here
  · exact sibling sameLeft (fun other inside => each other (Or.inl inside)) onLeft
  · rw [List.filter_cons, visible', Bool.not_false, if_pos rfl] at here
    rcases List.mem_cons.mp here with rfl | onRight
    · obtain ⟨part, fitsPart⟩ := each child (Or.inr (by simp [visible]))
      exact carry part fitsPart
    · have later := (List.sublist_cons_self child right).filter fun tree => !tree.isComment
      exact sibling sameRight (fun other inside => each other (Or.inr (later.subset inside))) onRight

/-! ### Cuts at the end

In the shapes of declarations everything but the declarators may be missing, and these stand last. -/

/-- A pattern that may consume less. -/
def Pattern.Droppable (pattern : Pattern) : Prop :=
  pattern.head.quantifier = .zeroOrMore ∨ pattern.head.quantifier = .zeroOrOne

instance (pattern : Pattern) : Decidable pattern.Droppable :=
  inferInstanceAs (Decidable (_ ∨ _))

namespace Cut

variable {kinds : List String} {kind : String} {shares : List Share}

theorem consume {pattern : Pattern} {items : List (List Pattern)} {segment : List String}
    (consumed : pattern.Consumes segment) (others : Cut items kinds shares) :
    Cut ([pattern] :: items) (segment ++ kinds) (⟨0, segment.length⟩ :: shares) :=
  .take rfl consumed others

/-- Every kind is accepted by one of the patterns. -/
theorem accepts_of_mem {patterns : List Pattern} (cut : Cut (patterns.map ([·])) kinds shares)
    (member : kind ∈ kinds) : ∃ pattern ∈ patterns, pattern.head.accepts kind = true := by
  obtain ⟨pattern, isTaker, accepted⟩ := exists_related_of_mem cut.accepts_takers.flip member
  exact ⟨pattern, by simpa using Cut.mem_takers isTaker, accepted⟩

theorem skipAll {patterns : List Pattern}
    (allowed : ∀ pattern ∈ patterns, pattern.head.quantifier.Allows 0) :
    ∃ shares, Cut (patterns.map ([·])) [] shares := by
  induction patterns with
  | nil => exact ⟨[], .done⟩
  | cons first rest ih =>
      rw [List.forall_mem_cons] at allowed
      obtain ⟨shares, others⟩ := ih allowed.2
      exact ⟨_, .skip allowed.1 others⟩

/-- If all patterns may consume less, the last kind may be missing. -/
theorem drop_last {patterns : List Pattern} (droppable : ∀ pattern ∈ patterns, pattern.Droppable)
    (cut : Cut (patterns.map ([·])) (kinds ++ [kind]) shares) :
    ∃ shares, Cut (patterns.map ([·])) kinds shares := by
  induction patterns generalizing kinds shares with
  | nil =>
      generalize whole : kinds ++ [kind] = cutKinds at cut
      cases cut
      simp at whole
  | cons first rest ih =>
      rw [List.forall_mem_cons] at droppable
      obtain ⟨segment, others, later, whole, consumed, restCut⟩ := cut.of_single
      rcases List.eq_nil_or_concat others with rfl | ⟨front, last, rfl⟩
      · -- The first pattern consumes all kinds.
        obtain rfl : kinds ++ [kind] = segment := by simpa using whole
        have shorter : first.Consumes kinds := by
          refine ⟨?_, fun kind member => consumed.2 kind (List.mem_append_left _ member)⟩
          rcases droppable.1 with many | one
          · rw [many]
            trivial
          · have fewer := consumed.1
            rw [one, List.length_append, List.length_singleton] at fewer
            rw [one]
            exact Nat.le_trans (Nat.le_succ _) fewer
        have whole := Cut.consume shorter restCut
        exact ⟨_, by simpa using whole⟩
      · rw [List.concat_eq_append, ← List.append_assoc] at whole
        obtain ⟨rfl, same⟩ := List.append_inj' whole rfl
        rw [List.concat_eq_append] at restCut
        obtain rfl : last = kind := (List.singleton_inj.mp same).symm
        obtain ⟨shares, others⟩ := ih droppable.2 restCut
        exact ⟨_, .consume consumed others⟩

/-- A further kind at the end is consumed by a pattern if neither it nor one after it has consumed any. -/
theorem append_last {front back : List Pattern} {pattern : Pattern}
    (cut : Cut ((front ++ pattern :: back).map ([·])) kinds shares)
    (absent : ∀ other ∈ pattern :: back, ∀ kind ∈ kinds, other.head.accepts kind = false)
    (accepts : pattern.head.accepts kind = true) (allowed : pattern.head.quantifier.Allows 1)
    (skippable : ∀ other ∈ back, other.head.quantifier.Allows 0) :
    ∃ shares, Cut ((front ++ pattern :: back).map ([·])) (kinds ++ [kind]) shares := by
  induction front generalizing kinds shares with
  | nil =>
      have none_ : kinds = [] := by
        refine List.eq_nil_iff_forall_not_mem.mpr fun kind member => ?_
        obtain ⟨other, isOther, accepted⟩ := cut.accepts_of_mem member
        rw [absent other isOther kind member] at accepted
        cases accepted
      subst none_
      obtain ⟨others, restCut⟩ := skipAll skippable
      exact ⟨_, .single allowed accepts restCut⟩
  | cons first rest ih =>
      obtain ⟨segment, others, later, rfl, consumed, restCut⟩ := cut.of_single
      obtain ⟨shares, restCut⟩ := ih restCut fun other isOther kind member =>
        absent other isOther kind (List.mem_append_right _ member)
      rw [List.append_assoc]
      exact ⟨_, .consume consumed restCut⟩

/-- If a kind is consumed by the last patterns, and no kind after it is, nothing comes after it. -/
theorem eq_nil_of_alone {front back : List Pattern} {after : List String}
    (cut : Cut ((front ++ back).map ([·])) (kinds ++ kind :: after) shares)
    (isLater : ∀ pattern ∈ front, pattern.head.accepts kind = false)
    (absent : ∀ pattern ∈ back, ∀ kind ∈ after, pattern.head.accepts kind = false) : after = [] := by
  induction front generalizing kinds shares with
  | nil =>
      refine List.eq_nil_iff_forall_not_mem.mpr fun other member => ?_
      have inside : other ∈ kinds ++ kind :: after := by simp [member]
      obtain ⟨pattern, isPattern, accepted⟩ := cut.accepts_of_mem inside
      rw [absent pattern isPattern other member] at accepted
      cases accepted
  | cons first rest ih =>
      rw [List.forall_mem_cons] at isLater
      obtain ⟨segment, others, later, whole, consumed, restCut⟩ := cut.of_single
      -- The first pattern does not reach the kind.
      rcases List.append_eq_append_iff.mp whole with ⟨own, rfl, inOrder⟩ | ⟨skipped, rfl, rfl⟩
      · cases own with
        | nil =>
            obtain rfl : kind :: after = others := inOrder
            exact @ih [] _ restCut isLater.2
        | cons _ _ =>
            obtain ⟨rfl, _⟩ := List.cons.inj inOrder
            have accepted := consumed.2 kind (by simp)
            rw [isLater.1] at accepted
            cases accepted
      · exact ih restCut isLater.2

end Cut

end HeaderBindings
