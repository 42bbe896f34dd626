/-
Module: HeaderBindings.Proofs.CaptureLayout
Purpose: Where captures lie and what each of them says, if no field's name is captured; and which of them
  change when there are more pointers around one name.
Main exports: Cursor.LeavesStars, Match.LaidOut, Match.laidOut_of_noField, SamePointers, SameLeaf,
  Respelled.leaves, NameMoved, Capture.Restarred, NameMoved.restarred
-/
import HeaderBindings.Proofs.FittingTrees
import HeaderBindings.Proofs.MatchCover

namespace HeaderBindings

/-! ### One capture for each captured node -/

/-- A name of a variable, a function or a type with pointers around it. -/
def Cursor.LeavesStars (cursor : Cursor) : Prop :=
  cursor.kind ∈ ["identifier", "type_identifier"] ∧ 0 < cursor.pointerDepth

namespace Match

/-- A match is captured node by node: the capture of each captured node has its kind and its text, with one
blank and the stars of the next captured node after it, exactly if that is a name with pointers. -/
structure LaidOut (bytes : List UInt8) (found : Match) : Prop where
  count : (found.captures bytes).length = found.leaves.length
  each : ∀ index leaf, found.leaves[index]? = some leaf → ∃ text,
    (found.captures bytes)[index]? = some ⟨leaf.kind, text⟩ ∧
    (∀ next, found.leaves[index + 1]? = some next → next.LeavesStars →
      text = leaf.textIn bytes ++ String.ofList (' ' :: List.replicate next.pointerDepth '*')) ∧
    ((∀ next, found.leaves[index + 1]? = some next → ¬ next.LeavesStars) → text = leaf.textIn bytes)

end Match

theorem getElem?_spelled (bytes : List UInt8) (leaves : List Cursor) (index : Nat) :
    (spelled bytes leaves)[index]? = leaves[index]?.map fun leaf =>
      ⟨leaf.kind, leaf.textIn bytes ++ pointersOf (leaves.drop (index + 1))⟩ := by
  induction leaves generalizing index with
  | nil => rfl
  | cons leaf rest ih =>
      cases index with
      | zero => rfl
      | succ index => exact ih index

theorem pointersOf_of_name {name : Cursor} (isName : name.kind ∈ ["identifier", "type_identifier"])
    (rest : List Cursor) : pointersOf (name :: rest) = Capture.stars name.pointerDepth := by
  have isDeclared : name.kind ∈ Capture.declaratorNames := by
    rcases List.mem_pair.mp isName with kind | kind <;> simp [kind, Capture.declaratorNames]
  simp [pointersOf, isDeclared]

theorem pointersOf_of_leavesStars {next : Cursor} (rest : List Cursor) (stars : next.LeavesStars) :
    pointersOf (next :: rest) = String.ofList (' ' :: List.replicate next.pointerDepth '*') := by
  obtain ⟨isName, some_⟩ := stars
  rw [pointersOf_of_name isName]
  simp [Capture.stars, Nat.ne_of_gt some_]

theorem pointersOf_of_not_leavesStars {leaves : List Cursor}
    (noField : ∀ leaf ∈ leaves, leaf.kind ≠ "field_identifier")
    (none_ : ∀ next, leaves[0]? = some next → ¬ next.LeavesStars) : pointersOf leaves = "" := by
  cases leaves with
  | nil => rfl
  | cons next rest =>
      have plain := none_ next rfl
      have notField := noField next List.mem_cons_self
      by_cases isName : next.kind ∈ ["identifier", "type_identifier"]
      · have noPointers : next.pointerDepth = 0 := by
          by_contra some_
          exact plain ⟨isName, Nat.pos_of_ne_zero some_⟩
        simp [pointersOf, noPointers, Capture.stars]
      · simp only [List.mem_cons, List.not_mem_nil, or_false, not_or] at isName
        simp [pointersOf, Capture.declaratorNames, isName, notField]

/-- If no captured node is a field's name, all captures are those of the captured nodes. -/
theorem Match.laidOut_of_noField {found : Match} (bytes : List UInt8)
    (noField : ∀ leaf ∈ found.leaves, leaf.kind ≠ "field_identifier") : found.LaidOut bytes := by
  have captures : found.captures bytes = spelled bytes found.leaves := by
    rw [Match.captures, capturesAfter_eq_foldl, Capture.foldl_add_eq noField]
    simp [Capture.appendLatest]
  constructor
  · rw [captures, length_spelled]
  · intro index leaf isLeaf
    refine ⟨leaf.textIn bytes ++ pointersOf (found.leaves.drop (index + 1)), ?_, ?_, ?_⟩
    · rw [captures, getElem?_spelled, isLeaf, Option.map_some]
    · intro next isNext stars
      obtain ⟨within, rfl⟩ := List.getElem?_eq_some_iff.mp isNext
      rw [List.drop_eq_getElem_cons within, pointersOf_of_leavesStars _ stars]
    · intro none_
      rw [pointersOf_of_not_leavesStars (fun leaf member => noField leaf (List.mem_of_mem_drop member))
        (by simpa using none_), String.append_empty]

/-! ### Pointers above -/

/-- There are as many pointers above two nodes. -/
structure SamePointers (above above' : List Frame) : Prop where
  through : Cursor.pointersAbove above = Cursor.pointersAbove above'
  run : Cursor.pointerRun above = Cursor.pointerRun above'

namespace SamePointers

variable {parent parent' : Tree} {index : Nat} {above above' : List Frame}

theorem cons (same : SamePointers above above') (sameKind : parent.kind = parent'.kind)
    (sameField : parent.fieldIndex? "declarator" = parent'.fieldIndex? "declarator") :
    SamePointers (⟨parent, index⟩ :: above) (⟨parent', index⟩ :: above') := by
  have run : Cursor.pointerRun (⟨parent, index⟩ :: above)
      = Cursor.pointerRun (⟨parent', index⟩ :: above') := by
    rw [Cursor.pointerRun_cons, Cursor.pointerRun_cons, sameKind, same.run]
  refine ⟨?_, run⟩
  rw [Cursor.pointersAbove, Cursor.pointersAbove]
  simp only [sameKind, sameField, same.through, run]

theorem pointersAbove_of_plain (index : Nat) (above : List Frame)
    (plain : parent.kind ∉ ["function_declarator", "array_declarator", "pointer_declarator"]) :
    Cursor.pointersAbove (⟨parent, index⟩ :: above) = 0 ∧
      Cursor.pointerRun (⟨parent, index⟩ :: above) = 0 := by
  simp only [List.mem_cons, List.not_mem_nil, or_false, not_or] at plain
  have run : Cursor.pointerRun (⟨parent, index⟩ :: above) = 0 := by
    simp [Cursor.pointerRun_cons, plain.2.2]
  exact ⟨(Cursor.pointersAbove_cons_of_other ⟨plain.1, plain.2.1⟩).trans run, run⟩

/-- Below a node that is no declarator there are no pointers, whatever is above. -/
theorem of_plain
    (plain : parent.kind ∉ ["function_declarator", "array_declarator", "pointer_declarator"])
    (sameKind : parent.kind = parent'.kind) :
    SamePointers (⟨parent, index⟩ :: above) (⟨parent', index⟩ :: above') := by
  obtain ⟨through, run⟩ := pointersAbove_of_plain index above plain
  obtain ⟨through', run'⟩ := pointersAbove_of_plain index above' (sameKind ▸ plain)
  exact ⟨through.trans through'.symm, run.trans run'.symm⟩

end SamePointers

/-! ### Nodes that are captured alike -/

/-- Two captured nodes have the same kind, the same text and as many pointers. -/
structure SameLeaf (bytes bytes' : List UInt8) (leaf leaf' : Cursor) : Prop where
  kind : leaf.kind = leaf'.kind
  text : leaf.textIn bytes = leaf'.textIn bytes'
  depth : leaf.pointerDepth = leaf'.pointerDepth

/-- A node is spelled again, below as many pointers. -/
structure RespelledNode (bytes bytes' : List UInt8) (cursor cursor' : Cursor) : Prop where
  focus : Respelled bytes bytes' cursor.focus cursor'.focus
  above : SamePointers cursor.above cursor'.above

section

variable {bytes bytes' : List UInt8}

theorem Tree.fieldIndex?_eq {tree tree' : Tree} (field : String)
    (fields : List.Forall₂ (fun child child' => child.label.field = child'.label.field)
      tree.children tree'.children) : tree.fieldIndex? field = tree'.fieldIndex? field := by
  have same : tree.children.map (fun child => child.label.field)
      = tree'.children.map fun child => child.label.field := by
    have mapped : List.Forall₂ (· = ·) (tree.children.map fun child => child.label.field)
        (tree'.children.map fun child => child.label.field) :=
      List.forall₂_map_left_iff.mpr (List.forall₂_map_right_iff.mpr fields)
    exact List.forall₂_eq_eq_eq ▸ mapped
  have byFields : ∀ tree : Tree, tree.fieldIndex? field
      = (tree.children.map fun child => child.label.field).findIdx? (· == some field) := by
    intro tree
    rw [List.findIdx?_map]
    rfl
  rw [byFields, byFields, same]

theorem Respelled.fields {trees trees' : List Tree}
    (respelled : List.Forall₂ (Respelled bytes bytes') trees trees') :
    List.Forall₂ (fun child child' => child.label.field = child'.label.field) trees trees' :=
  respelled.imp fun _ _ same => same.field_eq

/-- The children of two nodes that are no comments are spelled again, at the same indices. -/
theorem respelled_namedFrom {parent parent' : Tree} {above above' : List Frame} {trees trees' : List Tree}
    (respelled : List.Forall₂ (Respelled bytes bytes') trees trees') (index : Nat) :
    List.Forall₂ (fun child child' => Respelled bytes bytes' (Cursor.focus child) (Cursor.focus child') ∧
        ∃ at_, child.above = ⟨parent, at_⟩ :: above ∧ child'.above = ⟨parent', at_⟩ :: above')
      (Cursor.namedFrom parent above index trees) (Cursor.namedFrom parent' above' index trees') := by
  induction respelled generalizing index with
  | nil => exact .nil
  | @cons tree tree' _ _ same _ ih =>
      rw [Cursor.namedFrom_cons, Cursor.namedFrom_cons, same.isComment_eq]
      split
      · exact ih (index + 1)
      · exact .cons ⟨same, index, rfl, rfl⟩ (ih (index + 1))

theorem respelled_named {cursor cursor' : Cursor}
    (same : Respelled bytes bytes' cursor.focus cursor'.focus) :
    List.Forall₂ (fun child child' => Respelled bytes bytes' (Cursor.focus child) (Cursor.focus child') ∧
        ∃ index, child.above = ⟨cursor.focus, index⟩ :: cursor.above ∧
          child'.above = ⟨cursor'.focus, index⟩ :: cursor'.above) cursor.named cursor'.named :=
  respelled_namedFrom same.children 0

theorem respelledNode_namedFrom {parent parent' : Tree} {above above' : List Frame}
    {trees trees' : List Tree} (respelled : List.Forall₂ (Respelled bytes bytes') trees trees')
    (around : ∀ index, SamePointers (⟨parent, index⟩ :: above) (⟨parent', index⟩ :: above'))
    (index : Nat) :
    List.Forall₂ (RespelledNode bytes bytes') (Cursor.namedFrom parent above index trees)
      (Cursor.namedFrom parent' above' index trees') := by
  refine (respelled_namedFrom respelled index).imp ?_
  rintro child child' ⟨same, at_, isAbove, isAbove'⟩
  exact ⟨same, isAbove ▸ isAbove' ▸ around at_⟩

/-- From a node that is spelled again, the same is captured. -/
theorem RespelledNode.leaves {cursor cursor' : Cursor} (same : RespelledNode bytes bytes' cursor cursor') :
    List.Forall₂ (SameLeaf bytes bytes') cursor.leaves cursor'.leaves := by
  have kind : cursor.kind = cursor'.kind := same.focus.kind_eq
  cases captured : Capture.isCaptured cursor.kind with
  | true =>
      rw [Cursor.leaves_of_captured captured, Cursor.leaves_of_captured (kind ▸ captured)]
      exact .cons ⟨kind, same.focus.text_eq captured, same.above.through⟩ .nil
  | false =>
      by_cases silent : cursor.kind ∈ Capture.silentKinds
      · rw [Cursor.leaves_of_silent silent, Cursor.leaves_of_silent (kind ▸ silent)]
        exact .nil
      · rw [Cursor.leaves_of_children captured silent,
          Cursor.leaves_of_children (kind ▸ captured) (kind ▸ silent)]
        have children : List.Forall₂ (RespelledNode bytes bytes') cursor.named cursor'.named :=
          respelledNode_namedFrom same.focus.children (fun index => same.above.cons kind
            (Tree.fieldIndex?_eq _ (Respelled.fields same.focus.children))) 0
        apply forall₂_flatMap children
        intro child member child' sameChild
        have lower := Cursor.height_lt_of_mem_named member
        exact sameChild.leaves
termination_by cursor.focus.height

/-- From a node that is no declarator, the same is captured whatever is above. -/
theorem Respelled.leaves_of_plain {cursor cursor' : Cursor}
    (same : Respelled bytes bytes' cursor.focus cursor'.focus)
    (loud : Capture.isCaptured cursor.kind = false ∧ cursor.kind ∉ Capture.silentKinds)
    (plain : cursor.kind ∉ ["function_declarator", "array_declarator", "pointer_declarator"]) :
    List.Forall₂ (SameLeaf bytes bytes') cursor.leaves cursor'.leaves := by
  have kind : cursor.kind = cursor'.kind := same.kind_eq
  rw [Cursor.leaves_of_children loud.1 loud.2, Cursor.leaves_of_children (kind ▸ loud.1) (kind ▸ loud.2)]
  have children : List.Forall₂ (RespelledNode bytes bytes') cursor.named cursor'.named :=
    respelledNode_namedFrom same.children (fun _ => .of_plain plain kind) 0
  exact forall₂_flatMap children fun _ _ _ sameChild => sameChild.leaves

/-! ### A name with more pointers around it -/

/-- Two lists of captured nodes differ in one name, which has a number of pointers more in the second;
or none in both, if a function's name does not fill the field for its declarator. -/
inductive NameMoved (bytes bytes' : List UInt8) (text : String) (more : Nat) :
    List Cursor → List Cursor → Prop where
  | name {front front' back back' : List Cursor} {name name' : Cursor}
      (before : List.Forall₂ (SameLeaf bytes bytes') front front')
      (isName : name.kind ∈ ["identifier", "type_identifier"]) (sameKind : name.kind = name'.kind)
      (isText : name.textIn bytes = text) (isText' : name'.textIn bytes' = text)
      (moved : name'.pointerDepth = name.pointerDepth + more ∨
        name.pointerDepth = 0 ∧ name'.pointerDepth = 0)
      (after : List.Forall₂ (SameLeaf bytes bytes') back back') :
      NameMoved bytes bytes' text more (front ++ name :: back) (front' ++ name' :: back')

/-- Two lists of captures differ in the stars of the capture before that of a name, if there is one: there
are a number more of them in the second, or none in both. -/
inductive Capture.Restarred (text : String) (more : Nat) : List Capture → List Capture → Prop where
  | name {earlier later : List Capture} {kind spelling : String} {depth depth' : Nat}
      (isName : kind ∈ ["identifier", "type_identifier"])
      (moved : depth' = depth + more ∨ depth = 0 ∧ depth' = 0) :
      Restarred text more
        ((appendLatest (stars depth) earlier).reverse ++ ⟨kind, text ++ spelling⟩ :: later)
        ((appendLatest (stars depth') earlier).reverse ++ ⟨kind, text ++ spelling⟩ :: later)

/-- What nodes spell in front of others ends with the stars of the first of those. -/
theorem spelled_append (bytes : List UInt8) (front back : List Cursor) :
    spelled bytes (front ++ back)
      = (Capture.appendLatest (pointersOf back) (spelled bytes front).reverse).reverse
        ++ spelled bytes back := by
  induction front with
  | nil => rfl
  | cons leaf rest ih =>
      cases rest with
      | nil => simp [spelled, pointersOf, Capture.appendLatest]
      | cons next others =>
          obtain ⟨latest, earlier, inOrder⟩ : ∃ latest earlier,
              (spelled bytes (next :: others)).reverse = latest :: earlier :=
            List.exists_cons_of_ne_nil (by simp [spelled])
          rw [inOrder] at ih
          rw [List.cons_append, spelled, ih, spelled, List.reverse_cons, inOrder]
          simp [Capture.appendLatest, pointersOf]

theorem spelled_congr {leaves leaves' : List Cursor}
    (same : List.Forall₂ (SameLeaf bytes bytes') leaves leaves') :
    pointersOf leaves = pointersOf leaves' ∧ spelled bytes leaves = spelled bytes' leaves' := by
  induction same with
  | nil => exact ⟨rfl, rfl⟩
  | cons first _ ih =>
      obtain ⟨pointers, rest⟩ := ih
      exact ⟨by rw [pointersOf, pointersOf, first.kind, first.depth],
        by rw [spelled, spelled, first.kind, first.text, pointers, rest]⟩

namespace NameMoved

variable {text : String} {more : Nat} {leaves leaves' : List Cursor}

/-- What is captured alike may stand around. -/
theorem around {front front' back back' : List Cursor}
    (moved : NameMoved bytes bytes' text more leaves leaves')
    (before : List.Forall₂ (SameLeaf bytes bytes') front front')
    (after : List.Forall₂ (SameLeaf bytes bytes') back back') :
    NameMoved bytes bytes' text more (front ++ (leaves ++ back)) (front' ++ (leaves' ++ back')) := by
  cases moved with
  | name beforeName isName sameKind isText isText' moved afterName =>
      have whole := NameMoved.name (List.rel_append before beforeName) isName sameKind isText isText' moved
        (List.rel_append afterName after)
      simpa only [List.append_assoc, List.cons_append] using whole

/-- The captures differ in the stars before the name. -/
theorem restarred (moved : NameMoved bytes bytes' text more leaves leaves') :
    Capture.Restarred text more (spelled bytes leaves) (spelled bytes' leaves') := by
  cases moved with
  | @name front front' back back' name name' before isName sameKind isText isText' moved after =>
      obtain ⟨_, sameFront⟩ := spelled_congr before
      obtain ⟨samePointers, sameBack⟩ := spelled_congr after
      rw [spelled_append, spelled_append, pointersOf_of_name isName,
        pointersOf_of_name (sameKind ▸ isName), ← sameFront, spelled,
          spelled, isText, isText', ← sameKind,
        samePointers, sameBack]
      exact .name isName moved

end NameMoved

theorem Cursor.namedFrom_append (parent : Tree) (above : List Frame) (index : Nat)
    (first second : List Tree) :
    namedFrom parent above index (first ++ second)
      = namedFrom parent above index first ++ namedFrom parent above (index + first.length) second := by
  induction first generalizing index with
  | nil => rfl
  | cons tree rest ih =>
      rw [List.cons_append, namedFrom_cons, namedFrom_cons, ih, List.length_cons, Nat.add_right_comm,
        Nat.add_assoc]
      split <;> rfl

/-- A name that is moved below one child is moved below the node. -/
theorem nameMoved_of_child {label label' : Label} {left left' right right' : List Tree} {child child' : Tree}
    {above above' : List Frame} {text : String} {more : Nat}
    (loud : Capture.isCaptured label.kind = false ∧ label.kind ∉ Capture.silentKinds)
    (sameKind : label.kind = label'.kind) (before : List.Forall₂ (Respelled bytes bytes') left left')
    (after : List.Forall₂ (Respelled bytes bytes') right right')
    (visible : child.isComment = false) (visible' : child'.isComment = false)
    (around : ∀ index, SamePointers (⟨.node label (left ++ child :: right), index⟩ :: above)
      (⟨.node label' (left' ++ child' :: right'), index⟩ :: above'))
    (moved : ∀ index, NameMoved bytes bytes' text more
      (Cursor.leaves ⟨child, ⟨.node label (left ++ child :: right), index⟩ :: above⟩)
      (Cursor.leaves ⟨child', ⟨.node label' (left' ++ child' :: right'), index⟩ :: above'⟩)) :
    NameMoved bytes bytes' text more (Cursor.leaves ⟨.node label (left ++ child :: right), above⟩)
      (Cursor.leaves ⟨.node label' (left' ++ child' :: right'), above'⟩) := by
  have leaves : ∀ {label : Label} {left right : List Tree} {child : Tree} {above : List Frame},
      Capture.isCaptured label.kind = false ∧ label.kind ∉ Capture.silentKinds →
      child.isComment = false →
      Cursor.leaves ⟨.node label (left ++ child :: right), above⟩
        = (Cursor.namedFrom (.node label (left ++ child :: right)) above 0 left).flatMap Cursor.leaves
          ++ (Cursor.leaves ⟨child, ⟨.node label (left ++ child :: right), left.length⟩ :: above⟩
            ++ (Cursor.namedFrom (.node label (left ++ child :: right)) above
              (left.length + 1) right).flatMap
              Cursor.leaves) := by
    intro label left right child above loud visible
    let parent : Cursor := ⟨.node label (left ++ child :: right), above⟩
    have parentLoud : Capture.isCaptured parent.kind = false ∧ parent.kind ∉ Capture.silentKinds := loud
    rw [Cursor.leaves_of_children parentLoud.1 parentLoud.2, Cursor.named_node, Cursor.namedFrom_append,
      Cursor.namedFrom_cons, visible, List.flatMap_append, Nat.zero_add]
    rfl
  rw [leaves loud visible, leaves (sameKind ▸ loud) visible', ← before.length_eq]
  exact (moved left.length).around
    (forall₂_flatMap (respelledNode_namedFrom before around 0) fun _ _ _ same => same.leaves)
    (forall₂_flatMap (respelledNode_namedFrom after around (left.length + 1)) fun _ _ _ same =>
      same.leaves)

end

end HeaderBindings
