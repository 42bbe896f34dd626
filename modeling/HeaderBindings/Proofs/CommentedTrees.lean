/-
Module: HeaderBindings.Proofs.CommentedTrees
Purpose: Trees that differ in inserted comments, the nodes that stand in the same place in both, and that
  lists of children without comments, walks and pointers are the same at such nodes.
Main exports: Interspersed, Commented, SamePlace, SamePlace.named, SamePlace.walk,
  SamePlace.pointerDepth_eq
-/
import Mathlib.Data.List.Forall2
import HeaderBindings.Proofs.DocumentOrder
import HeaderBindings.Proofs.FieldShapes
import HeaderBindings.Proofs.Unrolling

namespace HeaderBindings

/-! ### Lists with further entries -/

/-- The entries of a list are related, one by one, to those of another list, which has further ones among
them. -/
inductive Interspersed {α β : Type} (related : α → β → Prop) (further : β → Prop) :
    List α → List β → Prop where
  | nil : Interspersed related further [] []
  | kept {x : α} {y : β} {xs : List α} {ys : List β} (pair : related x y)
      (others : Interspersed related further xs ys) : Interspersed related further (x :: xs) (y :: ys)
  | inserted {y : β} {xs : List α} {ys : List β} (isFurther : further y)
      (others : Interspersed related further xs ys) : Interspersed related further xs (y :: ys)

namespace Interspersed

variable {α β : Type} {related : α → β → Prop} {further : β → Prop}
  {xs xs' : List α} {ys ys' : List β}

theorem refl {related : α → α → Prop} {further : α → Prop} {xs : List α}
    (each : ∀ x ∈ xs, related x x) : Interspersed related further xs xs := by
  induction xs with
  | nil => exact .nil
  | cons x rest ih =>
      rw [List.forall_mem_cons] at each
      exact .kept each.1 (ih each.2)

theorem append (first : Interspersed related further xs ys)
    (second : Interspersed related further xs' ys') :
    Interspersed related further (xs ++ xs') (ys ++ ys') := by
  induction first with
  | nil => exact second
  | kept pair _ ih => exact .kept pair ih
  | inserted isFurther _ ih => exact .inserted isFurther ih

theorem exists_of_mem (interspersed : Interspersed related further xs ys) {x : α} (member : x ∈ xs) :
    ∃ y ∈ ys, related x y := by
  induction interspersed with
  | nil => cases member
  | kept pair _ ih =>
      rcases List.mem_cons.mp member with rfl | later
      · exact ⟨_, List.mem_cons_self, pair⟩
      · obtain ⟨y, isLater, isPair⟩ := ih later
        exact ⟨y, List.mem_cons_of_mem _ isLater, isPair⟩
  | inserted _ _ ih =>
      obtain ⟨y, isLater, isPair⟩ := ih member
      exact ⟨y, List.mem_cons_of_mem _ isLater, isPair⟩

/-- What passes a test that no further entry passes is related one by one. -/
theorem filter (interspersed : Interspersed related further xs ys) {keep : α → Bool}
    {keepOther : β → Bool} (same : ∀ x y, related x y → keep x = keepOther y)
    (dropped : ∀ y, further y → keepOther y = false) :
    List.Forall₂ related (xs.filter keep) (ys.filter keepOther) := by
  induction interspersed with
  | nil => exact .nil
  | @kept x y _ _ pair _ ih =>
      rw [List.filter_cons, List.filter_cons, ← same x y pair]
      split
      · exact .cons pair ih
      · exact ih
  | @inserted y _ _ isFurther _ ih =>
      rw [List.filter_cons, dropped y isFurther]
      exact ih

/-- A test that no further entry passes is passed by an entry of both lists or of none. -/
theorem any_eq (interspersed : Interspersed related further xs ys) {test : α → Bool}
    {testOther : β → Bool} (same : ∀ x y, related x y → test x = testOther y)
    (failed : ∀ y, further y → testOther y = false) : xs.any test = ys.any testOther := by
  induction interspersed with
  | nil => rfl
  | @kept x y _ _ pair _ ih => rw [List.any_cons, List.any_cons, same x y pair, ih]
  | @inserted y _ _ isFurther _ ih => rw [List.any_cons, failed y isFurther, ih, Bool.false_or]

end Interspersed

theorem forall₂_flatMap {α β γ δ : Type} {related : α → β → Prop} {parts : γ → δ → Prop}
    {first : α → List γ} {second : β → List δ} {xs : List α} {ys : List β}
    (paired : List.Forall₂ related xs ys)
    (each : ∀ x ∈ xs, ∀ y, related x y → List.Forall₂ parts (first x) (second y)) :
    List.Forall₂ parts (xs.flatMap first) (ys.flatMap second) := by
  induction paired with
  | nil => exact .nil
  | @cons x y _ _ pair _ ih =>
      rw [List.forall_mem_cons] at each
      rw [List.flatMap_cons, List.flatMap_cons]
      exact List.rel_append (each.1 y pair) (ih each.2)

/-! ### Nodes in order -/

namespace Cursor

theorem listingOfSiblings_eq (parent : Tree) (above : List Frame) (index : Nat) (trees : List Tree) :
    listingOfSiblings parent above index trees
      = (onSiblings ⟨parent, above⟩ index trees).flatMap fun child =>
        listing child.above child.focus := by
  induction trees generalizing index with
  | nil => rfl
  | cons tree rest ih => rw [listingOfSiblings, ih, onSiblings, List.flatMap_cons]

theorem preorder_eq (cursor : Cursor) : cursor.preorder = cursor :: cursor.children.flatMap preorder := by
  obtain ⟨⟨label, trees⟩, above⟩ := cursor
  rw [preorder, listing, listingOfSiblings_eq]
  rfl

end Cursor

/-- A child is the first to fill a field if it fills it and no child before it does. -/
theorem Tree.fieldIndex?_eq_some_length_iff {label : Label} {before after : List Tree} {tree : Tree}
    {field : String} :
    (Tree.node label (before ++ tree :: after)).fieldIndex? field = some before.length ↔
      (before.any fun child => child.label.field == some field) = false ∧
        tree.label.field = some field := by
  rw [fieldIndex?, children, List.findIdx?_eq_some_iff_getElem]
  constructor
  · rintro ⟨within, fills, first⟩
    refine ⟨?_, by simpa using fills⟩
    rw [List.any_eq_false]
    intro child member
    obtain ⟨index, isIndex, rfl⟩ := List.getElem_of_mem member
    have notBefore := first index isIndex
    rwa [List.getElem_append_left isIndex] at notBefore
  · rintro ⟨none_, fills⟩
    refine ⟨by simp, by simp [fills], ?_⟩
    intro index isBefore
    rw [List.getElem_append_left isBefore]
    exact List.any_eq_false.mp none_ _ (List.getElem_mem isBefore)

/-! ### Trees with further comments -/

/-- The text of what a label spans. -/
def Label.textIn (bytes : List UInt8) (label : Label) : String :=
  Text.decodeDropping ((bytes.take label.stop).drop label.start)

/-- A comment that fills no field of its parent. -/
def Tree.LooseComment (tree : Tree) : Prop :=
  tree.isComment = true ∧ tree.label.field = none

/-- A tree, read from some bytes, is another one, read from other bytes, with comments inserted below
its root: all nodes of the other tree keep their kinds, spans, fields and texts. -/
inductive Commented (bytes bytes' : List UInt8) : Tree → Tree → Prop where
  | node {label : Label} {trees trees' : List Tree} (text : label.textIn bytes = label.textIn bytes')
      (children : Interspersed (Commented bytes bytes') Tree.LooseComment trees trees') :
      Commented bytes bytes' (.node label trees) (.node label trees')

/-- Two nodes stand in the same place of trees of which one is the other with comments inserted. -/
inductive SamePlace (bytes bytes' : List UInt8) : Cursor → Cursor → Prop where
  | root {tree tree' : Tree} (same : Commented bytes bytes' tree tree') :
      SamePlace bytes bytes' (.root tree) (.root tree')
  | child {label : Label} {before before' after after' : List Tree} {tree tree' : Tree}
      {above above' : List Frame}
      (parent : SamePlace bytes bytes' ⟨.node label (before ++ tree :: after), above⟩
        ⟨.node label (before' ++ tree' :: after'), above'⟩)
      (left : Interspersed (Commented bytes bytes') Tree.LooseComment before before')
      (same : Commented bytes bytes' tree tree')
      (right : Interspersed (Commented bytes bytes') Tree.LooseComment after after') :
      SamePlace bytes bytes'
        ⟨tree, ⟨.node label (before ++ tree :: after), before.length⟩ :: above⟩
        ⟨tree', ⟨.node label (before' ++ tree' :: after'), before'.length⟩ :: above'⟩

section

variable {bytes bytes' : List UInt8}

namespace Commented

variable {tree tree' : Tree}

/-- A tree is itself with no comments inserted. -/
theorem refl (bytes : List UInt8) (tree : Tree) : Commented bytes bytes tree tree := by
  obtain ⟨label, trees⟩ := tree
  apply Commented.node rfl
  apply Interspersed.refl
  intro child member
  have lower : child.height < (Tree.node label trees).height := Tree.height_lt_of_mem member
  exact refl bytes child
termination_by tree.height

theorem label_eq (commented : Commented bytes bytes' tree tree') : tree.label = tree'.label := by
  cases commented
  rfl

theorem kind_eq (commented : Commented bytes bytes' tree tree') : tree.kind = tree'.kind :=
  congrArg Label.kind commented.label_eq

theorem isComment_eq (commented : Commented bytes bytes' tree tree') :
    tree.isComment = tree'.isComment := by
  rw [Tree.isComment, Tree.isComment, commented.kind_eq]

theorem children (commented : Commented bytes bytes' tree tree') :
    Interspersed (Commented bytes bytes') Tree.LooseComment tree.children tree'.children := by
  cases commented with
  | node _ children => exact children

/-- The children that are not comments are the same but for comments below them. -/
theorem named (commented : Commented bytes bytes' tree tree') :
    List.Forall₂ (Commented bytes bytes') tree.named tree'.named := by
  apply commented.children.filter
  · intro child child' same
    rw [same.isComment_eq]
  · intro comment inserted
    simp [inserted.1]

end Commented

namespace SamePlace

variable {cursor cursor' : Cursor}

theorem focus (same : SamePlace bytes bytes' cursor cursor') :
    Commented bytes bytes' cursor.focus cursor'.focus := by
  cases same with
  | root commented => exact commented
  | child _ _ commented _ => exact commented

theorem kind_eq (same : SamePlace bytes bytes' cursor cursor') : cursor.kind = cursor'.kind :=
  same.focus.kind_eq

theorem textOf_eq (same : SamePlace bytes bytes' cursor cursor') :
    Document.textOf bytes cursor = Document.textOf bytes' cursor' := by
  obtain ⟨tree, above⟩ := cursor
  obtain ⟨tree', above'⟩ := cursor'
  cases same.focus with
  | node text _ => exact text

/-! ### Children -/

/-- Siblings of two nodes in the same place stand in the same places, if those before them do. -/
theorem onSiblings {label : Label} {trees trees' before before' rest rest' : List Tree}
    {above above' : List Frame}
    (same : SamePlace bytes bytes' ⟨.node label trees, above⟩ ⟨.node label trees', above'⟩)
    (left : Interspersed (Commented bytes bytes') Tree.LooseComment before before')
    (right : Interspersed (Commented bytes bytes') Tree.LooseComment rest rest')
    (isTrees : trees = before ++ rest) (isTrees' : trees' = before' ++ rest') :
    Interspersed (SamePlace bytes bytes') (fun child => child.focus.LooseComment)
      (Cursor.onSiblings ⟨.node label trees, above⟩ before.length rest)
      (Cursor.onSiblings ⟨.node label trees', above'⟩ before'.length rest') := by
  induction right generalizing before before' with
  | nil => exact .nil
  | @kept tree tree' rest rest' pair right ih =>
      have later := ih (left.append (.kept pair .nil)) (by simp [isTrees]) (by simp [isTrees'])
      rw [List.length_append, List.length_append] at later
      subst isTrees isTrees'
      exact .kept (.child same left pair right) later
  | @inserted comment rest rest' inserted right ih =>
      have later := ih (left.append (.inserted inserted .nil)) (by simp [isTrees]) (by simp [isTrees'])
      rw [List.length_append, List.length_append] at later
      exact .inserted inserted later

/-- The children of two nodes in the same place stand in the same places, apart from comments. -/
theorem children (same : SamePlace bytes bytes' cursor cursor') :
    Interspersed (SamePlace bytes bytes') (fun child => child.focus.LooseComment)
      cursor.children cursor'.children := by
  obtain ⟨⟨label, trees⟩, above⟩ := cursor
  obtain ⟨⟨label', trees'⟩, above'⟩ := cursor'
  obtain rfl : label = label' := same.focus.label_eq
  exact same.onSiblings .nil same.focus.children rfl rfl

/-- The children of two nodes in the same place that are not comments stand in the same places. -/
theorem named (same : SamePlace bytes bytes' cursor cursor') :
    List.Forall₂ (SamePlace bytes bytes') cursor.named cursor'.named := by
  apply same.children.filter
  · intro child child' samePlace
    rw [samePlace.focus.isComment_eq]
  · intro comment inserted
    simp [inserted.1]

/-- The walks from two nodes in the same place go through the same places. -/
theorem walk {cursor cursor' : Cursor} (same : SamePlace bytes bytes' cursor cursor') :
    List.Forall₂ (SamePlace bytes bytes') cursor.walk cursor'.walk := by
  rw [Cursor.walk_eq, Cursor.walk_eq]
  apply List.Forall₂.cons same
  apply forall₂_flatMap same.named
  intro child member child' sameChild
  have lower := Cursor.height_lt_of_mem_named member
  exact sameChild.walk
termination_by cursor.focus.height

/-- Every node of the tree without the inserted comments stands in the other one as well. -/
theorem exists_of_mem_preorder {cursor cursor' node : Cursor}
    (same : SamePlace bytes bytes' cursor cursor') (member : node ∈ cursor.preorder) :
    ∃ node' ∈ cursor'.preorder, SamePlace bytes bytes' node node' := by
  rw [Cursor.preorder_eq] at member ⊢
  rcases List.mem_cons.mp member with rfl | below
  · exact ⟨cursor', List.mem_cons_self, same⟩
  · obtain ⟨child, isChild, inside⟩ := List.mem_flatMap.mp below
    obtain ⟨child', isChild', sameChild⟩ := same.children.exists_of_mem isChild
    have lower := Cursor.height_lt_of_mem_children isChild
    obtain ⟨node', inside', sameNode⟩ := sameChild.exists_of_mem_preorder inside
    exact ⟨node', List.mem_cons_of_mem _ (List.mem_flatMap.mpr ⟨child', isChild', inside'⟩),
      sameNode⟩
termination_by cursor.focus.height

/-! ### What is around a node -/

theorem pointers_eq (same : SamePlace bytes bytes' cursor cursor') :
    Cursor.pointersAbove cursor.above = Cursor.pointersAbove cursor'.above ∧
      Cursor.pointerRun cursor.above = Cursor.pointerRun cursor'.above := by
  induction same with
  | root _ => exact ⟨rfl, rfl⟩
  | @child label before before' after after' tree tree' above above' _ left same right ih =>
      obtain ⟨sameAbove, sameRun⟩ := ih
      have sameKind : (Tree.node label (before ++ tree :: after)).kind
          = (Tree.node label (before' ++ tree' :: after')).kind := rfl
      have run : Cursor.pointerRun (⟨.node label (before ++ tree :: after), before.length⟩ :: above)
          = Cursor.pointerRun
              (⟨.node label (before' ++ tree' :: after'), before'.length⟩ :: above') := by
        rw [Cursor.pointerRun_cons, Cursor.pointerRun_cons, sameKind, sameRun]
      -- The inserted comments fill no field, so the declarator's index moves with the child's.
      have earlier : (before.any fun child => child.label.field == some "declarator")
          = before'.any fun child => child.label.field == some "declarator" := by
        apply left.any_eq
        · intro child child' sameChild
          rw [sameChild.label_eq]
        · intro comment inserted
          simp [inserted.2]
      have filled : ((Tree.node label (before ++ tree :: after)).fieldIndex? "declarator"
          == some before.length)
          = ((Tree.node label (before' ++ tree' :: after')).fieldIndex? "declarator"
            == some before'.length) := by
        rw [Bool.eq_iff_iff, beq_iff_eq, beq_iff_eq, Tree.fieldIndex?_eq_some_length_iff,
          Tree.fieldIndex?_eq_some_length_iff, earlier, same.label_eq]
      refine ⟨?_, run⟩
      rw [Cursor.pointersAbove, Cursor.pointersAbove]
      simp only [sameKind, filled, sameAbove, run]

theorem pointerDepth_eq (same : SamePlace bytes bytes' cursor cursor') :
    cursor.pointerDepth = cursor'.pointerDepth :=
  same.pointers_eq.1

end SamePlace

end

end HeaderBindings
