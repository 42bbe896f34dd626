/-
Module: HeaderBindings.Proofs.CapturedLeaves
Purpose: The nodes that a capture walk stops at, in order, and what their captures spell: each its own
  text, with the pointers of the node captured after it.
Main exports: Cursor.leaves, Cursor.capturesAfter_eq_foldl, Capture.GoesOn, pointersOf, spelled,
  Cursor.captures_eq_spelled, Cursor.captures_of_tag
-/
import HeaderBindings.Proofs.DocumentOrder
import HeaderBindings.Proofs.FieldCaptures

namespace HeaderBindings

/-! ### Captured nodes -/

namespace Cursor

mutual

/-- The captured nodes of a tree below some frames, in order. -/
def leavesIn (above : List Frame) : Tree → List Cursor
  | .node label trees =>
      if Capture.isCaptured label.kind then [⟨.node label trees, above⟩]
      else if Capture.silentKinds.contains label.kind then []
      else leavesAmong (.node label trees) above 0 trees

/-- The captured nodes of sibling trees that are not comments, the first of which has an index below a
parent. -/
def leavesAmong (parent : Tree) (above : List Frame) : Nat → List Tree → List Cursor
  | _, [] => []
  | index, tree :: rest =>
      (if tree.isComment then [] else leavesIn (⟨parent, index⟩ :: above) tree)
        ++ leavesAmong parent above (index + 1) rest

end

/-- The captured nodes from a node on, in order. -/
def leaves (cursor : Cursor) : List Cursor := leavesIn cursor.above cursor.focus

variable {cursor : Cursor}

theorem leaves_of_captured (captured : Capture.isCaptured cursor.kind = true) :
    cursor.leaves = [cursor] := by
  rcases cursor with ⟨⟨label, trees⟩, above⟩
  simp only [kind, Tree.kind, Tree.label] at captured
  simp only [leaves, leavesIn, captured, if_true]

theorem leaves_of_silent (silent : cursor.kind ∈ Capture.silentKinds) : cursor.leaves = [] := by
  have uncaptured : ∀ kind ∈ Capture.silentKinds, Capture.isCaptured kind = false := by decide
  have notHere := uncaptured _ silent
  rcases cursor with ⟨⟨label, trees⟩, above⟩
  simp only [kind, Tree.kind, Tree.label] at silent notHere
  simp [leaves, leavesIn, notHere, silent]

theorem leavesAmong_eq (parent : Tree) (above : List Frame) (index : Nat) (trees : List Tree) :
    leavesAmong parent above index trees = (namedFrom parent above index trees).flatMap leaves := by
  induction trees generalizing index with
  | nil => rfl
  | cons tree rest ih =>
      rw [namedFrom_cons, leavesAmong, ih]
      cases tree.isComment <;> rfl

theorem leaves_of_children (captured : Capture.isCaptured cursor.kind = false)
    (silent : cursor.kind ∉ Capture.silentKinds) : cursor.leaves = cursor.named.flatMap leaves := by
  rcases cursor with ⟨⟨label, trees⟩, above⟩
  simp only [kind, Tree.kind, Tree.label] at captured silent
  simp [leaves, leavesIn, captured, silent, named_node, leavesAmong_eq]

/-- The captures of a node are those of its captured nodes, added in order. -/
theorem capturesAfter_eq_foldl (bytes : List UInt8) (cursor : Cursor) (latestFirst : List Capture) :
    cursor.capturesAfter bytes latestFirst
      = cursor.leaves.foldl (fun latestFirst leaf => Capture.add bytes leaf latestFirst)
          latestFirst := by
  cases captured : Capture.isCaptured cursor.kind with
  | true => rw [capturesAfter_captured captured, leaves_of_captured captured]; rfl
  | false =>
      by_cases silent : cursor.kind ∈ Capture.silentKinds
      · rw [capturesAfter_silent silent, leaves_of_silent silent]; rfl
      · rw [capturesAfter_children captured silent, leaves_of_children captured silent,
          List.foldl_flatMap]
        refine List.foldl_ext _ _ latestFirst fun earlier child isChild => ?_
        have lower := height_lt_of_mem_named isChild
        exact child.capturesAfter_eq_foldl bytes earlier
termination_by cursor.focus.height

/-- Every captured node is reached from the node on. -/
theorem reaches_of_mem_leaves {cursor leaf : Cursor} (member : leaf ∈ cursor.leaves) :
    cursor.Reaches leaf ∧ Capture.isCaptured leaf.kind = true := by
  cases captured : Capture.isCaptured cursor.kind with
  | true =>
      rw [leaves_of_captured captured, List.mem_singleton] at member
      subst member
      exact ⟨.refl, captured⟩
  | false =>
      by_cases silent : cursor.kind ∈ Capture.silentKinds
      · rw [leaves_of_silent silent] at member
        cases member
      · rw [leaves_of_children captured silent] at member
        obtain ⟨child, isChild, inside⟩ := List.mem_flatMap.mp member
        have lower := height_lt_of_mem_named isChild
        obtain ⟨reaches, isLeaf⟩ := reaches_of_mem_leaves inside
        exact ⟨.head isChild reaches, isLeaf⟩
termination_by cursor.focus.height

end Cursor

/-! ### Captures that stay

Only the latest capture is changed by those after it. -/

namespace Capture

/-- Captures that go on from earlier ones with at least one of their own. -/
def GoesOn (earlier latestFirst : List Capture) : Prop :=
  ∃ latest new, latestFirst = latest :: (new ++ earlier)

variable {earlier latestFirst : List Capture}

theorem GoesOn.notePointers (goesOn : GoesOn earlier latestFirst) (kind : String) (depth : Nat) :
    GoesOn earlier (notePointers kind depth latestFirst) := by
  obtain ⟨latest, new, rfl⟩ := goesOn
  rw [Capture.notePointers]
  split
  · exact ⟨latest, new, rfl⟩
  · dsimp only
    split
    · exact ⟨_, latest :: new, rfl⟩
    · exact ⟨_, new, rfl⟩

theorem GoesOn.add (goesOn : GoesOn earlier latestFirst) (bytes : List UInt8) (cursor : Cursor) :
    GoesOn earlier (add bytes cursor latestFirst) := by
  obtain ⟨latest, new, noted⟩ := goesOn.notePointers cursor.kind cursor.pointerDepth
  exact ⟨_, latest :: new, congrArg _ noted⟩

theorem GoesOn.foldl_add (goesOn : GoesOn earlier latestFirst) (bytes : List UInt8)
    (leaves : List Cursor) :
    GoesOn earlier
      (leaves.foldl (fun latestFirst leaf => Capture.add bytes leaf latestFirst) latestFirst) := by
  induction leaves generalizing latestFirst with
  | nil => exact goesOn
  | cons leaf rest ih => exact ih (goesOn.add bytes leaf)

theorem GoesOn.capturesAfter (goesOn : GoesOn earlier latestFirst) (bytes : List UInt8)
    (cursor : Cursor) : GoesOn earlier (cursor.capturesAfter bytes latestFirst) := by
  rw [Cursor.capturesAfter_eq_foldl]
  exact goesOn.foldl_add bytes cursor.leaves

end Capture

/-! ### Texts and pointers -/

/-- The pointers that the next captured node leaves after the capture before it: those around it, if it is
a declarator's name. -/
def pointersOf : List Cursor → String
  | [] => ""
  | next :: _ =>
      if Capture.declaratorNames.contains next.kind then Capture.stars next.pointerDepth else ""

/-- The captures of nodes in order, if no field's name is among them. -/
def spelled (bytes : List UInt8) : List Cursor → List Capture
  | [] => []
  | leaf :: rest => ⟨leaf.kind, leaf.textIn bytes ++ pointersOf rest⟩ :: spelled bytes rest

@[simp] theorem length_spelled (bytes : List UInt8) (leaves : List Cursor) :
    (spelled bytes leaves).length = leaves.length := by
  induction leaves with
  | nil => rfl
  | cons leaf rest ih => rw [spelled, List.length_cons, ih, List.length_cons]

/-- Captures with a text after the latest one. -/
def Capture.appendLatest (text : String) : List Capture → List Capture
  | [] => []
  | latest :: earlier => { latest with text := latest.text ++ text } :: earlier

theorem Capture.appendLatest_empty (latestFirst : List Capture) :
    appendLatest "" latestFirst = latestFirst := by
  cases latestFirst with
  | nil => rfl
  | cons latest earlier => rw [appendLatest, String.append_empty]

/-- A node that is no field's name leaves its pointers after the latest capture. -/
theorem Capture.notePointers_eq {leaf : Cursor} (notField : leaf.kind ≠ "field_identifier")
    (rest : List Cursor) (latestFirst : List Capture) :
    notePointers leaf.kind leaf.pointerDepth latestFirst
      = appendLatest (pointersOf (leaf :: rest)) latestFirst := by
  cases latestFirst with
  | nil => rfl
  | cons latest earlier =>
      by_cases isName : leaf.kind ∈ declaratorNames
      · simp [notePointers, pointersOf, appendLatest, isName, notField]
      · simp [notePointers, pointersOf, appendLatest, isName]

/-- Nodes among which is no field's name add what they spell; the first one's pointers stand after the
capture before them. -/
theorem Capture.foldl_add_eq {bytes : List UInt8} {leaves : List Cursor}
    (noField : ∀ leaf ∈ leaves, leaf.kind ≠ "field_identifier") (latestFirst : List Capture) :
    leaves.foldl (fun latestFirst leaf => add bytes leaf latestFirst) latestFirst
      = (spelled bytes leaves).reverse ++ appendLatest (pointersOf leaves) latestFirst := by
  induction leaves generalizing latestFirst with
  | nil => simp [spelled, pointersOf, appendLatest_empty]
  | cons leaf rest ih =>
      rw [List.forall_mem_cons] at noField
      rw [List.foldl_cons, ih noField.2, add, notePointers_eq noField.1 rest]
      simp [spelled, appendLatest, Cursor.textIn]

namespace Cursor

variable {bytes : List UInt8} {cursor : Cursor}

theorem captures_eq_spelled (noField : ∀ leaf ∈ cursor.leaves, leaf.kind ≠ "field_identifier") :
    (cursor.capturesAfter bytes []).reverse = spelled bytes cursor.leaves := by
  rw [capturesAfter_eq_foldl, Capture.foldl_add_eq noField]
  simp [Capture.appendLatest]

/-- The first capture is that of the first captured node, if that is a type: a field's name after it leaves
its pointers there, too. -/
theorem captures_of_tag {tag : Cursor} {rest : List Cursor} (leaves : cursor.leaves = tag :: rest)
    (isType : tag.kind ∈ Capture.typeNames) :
    ∃ others, (cursor.capturesAfter bytes []).reverse
      = ⟨tag.kind, tag.textIn bytes ++ pointersOf rest⟩ :: others := by
  have first : Capture.add bytes tag [] = [⟨tag.kind, tag.textIn bytes⟩] := rfl
  rw [capturesAfter_eq_foldl, leaves, List.foldl_cons, first]
  cases rest with
  | nil => exact ⟨[], by simp [pointersOf]⟩
  | cons next later =>
      have noted : Capture.add bytes next [⟨tag.kind, tag.textIn bytes⟩]
          = [⟨next.kind, next.textIn bytes⟩,
            ⟨tag.kind, tag.textIn bytes ++ pointersOf (next :: later)⟩] := by
        have typed : Capture.typeNames.contains tag.kind = true := List.contains_iff_mem.mpr isType
        by_cases isName : next.kind ∈ Capture.declaratorNames
        · simp [Capture.add, Capture.notePointers, pointersOf, isName, isType, textIn]
        · simp [Capture.add, Capture.notePointers, pointersOf, isName, textIn]
      rw [List.foldl_cons, noted]
      have started : Capture.GoesOn [⟨tag.kind, tag.textIn bytes ++ pointersOf (next :: later)⟩]
          [⟨next.kind, next.textIn bytes⟩,
            ⟨tag.kind, tag.textIn bytes ++ pointersOf (next :: later)⟩] := ⟨_, [], rfl⟩
      obtain ⟨latest, new, goesOn⟩ := started.foldl_add bytes later
      rw [goesOn]
      exact ⟨(latest :: new).reverse, by simp⟩

/-- The last capture is that of the last captured node alone. -/
theorem getLast?_captures {front : List Cursor} {last : Cursor}
    (leaves : cursor.leaves = front ++ [last]) :
    (cursor.capturesAfter bytes []).reverse.getLast? = some (last.leaf bytes) := by
  rw [capturesAfter_eq_foldl, leaves, List.foldl_append, List.foldl_cons, List.foldl_nil,
    List.getLast?_reverse]
  rfl

end Cursor

end HeaderBindings
