/-
Module: HeaderBindings.Proofs.WrappedDeclarators
Purpose: Pointers around the name that a type definition defines, around a function declarator or around a
  parameter's name change neither the claim on a declaration nor the layout of its captures.
Main exports: InPointers, ChangedAt, Rewrapped, Rewraps, Renames, Rules.layout_of_captures
-/
import HeaderBindings.Proofs.CaptureLayout
import HeaderBindings.Proofs.DeclaratorShapes

namespace HeaderBindings

open Pattern Rules

/-! ### Pointers in a tree -/

/-- A tree is put into a number of pointers, which hold nothing else. -/
inductive InPointers : Nat → Tree → Tree → Prop where
  | none {tree : Tree} : InPointers 0 tree tree
  | pointer {count : Nat} {label : Label} {tree inner : Tree} (isPointer : label.kind = "pointer_declarator")
      (inside : InPointers count tree inner) : InPointers (count + 1) tree (.node label [inner])

section

variable (bytes bytes' : List UInt8)

/-- A node of a kind is spelled again, but for one child, which is changed and fills the same field. -/
inductive ChangedAt (kind : String) (siblings : Siblings) (changed : Tree → Tree → Prop) :
    Tree → Tree → Prop where
  | child {label label' : Label} {left left' right right' : List Tree} {child child' : Tree}
      (isKind : label.kind = kind) (isKind' : label'.kind = kind)
      (before : List.Forall₂ (Respelled bytes bytes') left left')
      (after : List.Forall₂ (Respelled bytes bytes') right right')
      (stand : siblings (namedKinds left) (namedKinds right))
      (sameField : child.label.field = child'.label.field) (changes : changed child child') :
      ChangedAt kind siblings changed (.node label (left ++ child :: right))
        (.node label' (left' ++ child' :: right'))

/-- In a declarator, a node of a kind is changed and put into a number of pointers more. There are some
pointers around the node already, in each of which it is the one declarator. -/
def Rewrapped (kind : String) (more : Nat) (changed : Tree → Tree → Prop) :
    Nat → Tree → Tree → Prop
  | 0, tree, tree' => tree.kind = kind ∧ ∃ inner, inner.kind = kind ∧ changed tree inner ∧
      InPointers more inner tree'
  | depth + 1, tree, tree' =>
      ChangedAt bytes bytes' "pointer_declarator" (.alone [kind, "pointer_declarator"])
        (Rewrapped kind more changed depth) tree tree'

/-- A name is spelled again. -/
def RespelledName (text : String) (name name' : Tree) : Prop :=
  Text.collapsed (name.label.textIn bytes) = text ∧ Respelled bytes bytes' name name'

/-- A function declarator is spelled again. -/
def RespelledFunction (text : String) (declarator declarator' : Tree) : Prop :=
  (∃ name ∈ declarator.named,
    name.kind = "identifier" ∧ Text.collapsed (name.label.textIn bytes) = text) ∧
    Respelled bytes bytes' declarator declarator'

/-- In a function declarator, the name of one parameter is put into a number of pointers more. -/
def RewrappedParameter (text : String) (more depth : Nat) : Tree → Tree → Prop :=
  ChangedAt bytes bytes' "function_declarator" (fun _ _ => True) <|
    ChangedAt bytes bytes' "parameter_list" (fun _ _ => True) <|
      ChangedAt bytes bytes' "parameter_declaration" (.alone ["identifier", "pointer_declarator"]) <|
        Rewrapped bytes bytes' "identifier" more (RespelledName bytes bytes' text) depth

/-- In a declaration with one declarator, a name is put into a number of pointers more: the name that a type
definition defines, a function declarator with the name of the function, or the name of a parameter. -/
inductive Rewraps (text : String) (more : Nat) : Action → Tree → Tree → Prop where
  | definedName {depth : Nat} {tree tree' : Tree}
      (changed : ChangedAt bytes bytes' "type_definition" .last
        (Rewrapped bytes bytes' "type_identifier" more (RespelledName bytes bytes' text) depth) tree tree') :
      Rewraps text more .declareAlias tree tree'
  | function {depth : Nat} {tree tree' : Tree}
      (changed : ChangedAt bytes bytes' "declaration" (.alone ["function_declarator", "pointer_declarator"])
        (Rewrapped bytes bytes' "function_declarator" more (RespelledFunction bytes bytes' text) depth)
        tree tree') :
      Rewraps text more .declareFunction tree tree'
  | parameter {depth inner : Nat} {tree tree' : Tree}
      (changed : ChangedAt bytes bytes' "declaration" (.alone ["function_declarator", "pointer_declarator"])
        (Rewrapped bytes bytes' "function_declarator" 0 (RewrappedParameter bytes bytes' text more inner)
          depth) tree tree') :
      Rewraps text more .declareFunction tree tree'

end

/-! ### Nodes in pointers -/

namespace InPointers

variable {count : Nat} {tree inner : Tree}

theorem kind (wrapped : InPointers count inner tree) : tree = inner ∨
    tree.kind = "pointer_declarator" := by
  cases wrapped with
  | none => exact Or.inl rfl
  | pointer isPointer _ => exact Or.inr isPointer

/-- In pointers, a declarator fits where it fitted before. -/
theorem fitsThrough {pointerShape part pointers : Pattern} {kind : String} {start back : List Pattern}
    (wrapped : InPointers count inner tree)
    (ends : EndsInDeclarator pointerShape pointerShape part kind start pointers back)
    (fits : inner.FitsThrough pointerShape part kind) : tree.FitsThrough pointerShape part kind := by
  induction wrapped with
  | none => exact fits
  | @pointer count label outer inner isPointer inside ih =>
      have below := ih fits
      have isDeclarator : inner.kind ∈ [kind, "pointer_declarator"] := by
        rcases below with ⟨same, _⟩ | ⟨same, _⟩ <;> simp [same]
      have visible := ends.isComment_eq_false isDeclarator
      obtain ⟨shares, cut⟩ := ends.cut_single isDeclarator
      have children : namedKinds [inner] = [inner.kind] := namedKinds_cons visible []
      refine Or.inr ⟨isPointer, .of_parts (by rw [Tree.children, children]; exact cut) ?_⟩
      intro child member
      obtain rfl : child = inner := List.mem_singleton.mp (List.mem_filter.mp member).1
      exact (ends.exists_fitsPart_iff isDeclarator).mpr below

/-- From a node in pointers, what is captured is captured from the node, which has these pointers more. -/
theorem leaves (wrapped : InPointers count inner tree) (visible : inner.isComment = false)
    {above : List Frame} (plain : Cursor.pointersAbove above = Cursor.pointerRun above) :
    ∃ frames, Cursor.leaves ⟨tree, above⟩ = Cursor.leaves ⟨inner, frames⟩ ∧
      Cursor.pointersAbove frames = Cursor.pointersAbove above + count ∧
        (count = 0 → frames = above) := by
  induction wrapped generalizing above with
  | none => exact ⟨above, rfl, rfl, fun _ => rfl⟩
  | @pointer count label outer inner isPointer inside ih =>
      let node : Tree := .node label [inner]
      have pointer : node.kind = "pointer_declarator" := isPointer
      have other : node.kind ≠ "function_declarator" ∧
          node.kind ≠ "array_declarator" := by simp [pointer]
      have innerVisible : inner.isComment = false := by
        rcases inside.kind with rfl | isInner
        · exact visible
        · simp [Tree.isComment, isInner]
      have below : Cursor.pointersAbove (⟨node, 0⟩ :: above)
          = Cursor.pointerRun (⟨node, 0⟩ :: above) :=
        Cursor.pointersAbove_cons_of_other other
      obtain ⟨frames, leaves, depth, _⟩ := ih visible below
      refine ⟨frames, ?_, ?_, by omega⟩
      · have kind : Cursor.kind ⟨node, above⟩ = "pointer_declarator" := pointer
        rw [← leaves, Cursor.leaves_of_children (by rw [kind]; decide) (by rw [kind]; decide),
          Cursor.named_node, Cursor.namedFrom_cons, innerVisible]
        simp [Cursor.namedFrom, Cursor.onSiblings, node]
      · rw [depth, Cursor.pointersAbove_cons_of_other other,
          Cursor.pointerRun_cons_of_pointer pointer, plain]
        omega

end InPointers

/-! ### Declarators that are changed -/

section

variable {bytes bytes' : List UInt8} {text : String} {more count : Nat}
  {pointerShape part pointers : Pattern} {kind : String} {start back : List Pattern}
  {changed : Tree → Tree → Prop}

/-- A change of nodes that a part reads keeps them fitting, and moves a name as soon as there are a number of
pointers more around the changed node. -/
structure Renames (bytes bytes' : List UInt8) (text : String) (more : Nat) (part : Pattern) (kind : String)
    (count : Nat) (changed : Tree → Tree → Prop) : Prop where
  fits : ∀ {tree inner}, changed tree inner → tree.Fits part → inner.Fits part
  moved : ∀ {tree inner above frames}, changed tree inner → tree.Fits part → tree.kind = kind →
    inner.kind = kind → Cursor.pointersAbove frames = Cursor.pointersAbove above + count →
    (count = 0 → SamePointers above frames) →
    NameMoved bytes bytes' text more (Cursor.leaves ⟨tree, above⟩) (Cursor.leaves ⟨inner, frames⟩)

/-- A declarator becomes another one that fits if it did, with a moved name below it. -/
structure Becomes (bytes bytes' : List UInt8) (text : String) (more : Nat) (pointerShape part : Pattern)
    (kind : String) (tree tree' : Tree) : Prop where
  isDeclarator : tree.kind ∈ [kind, "pointer_declarator"]
  becomes : tree'.kind = tree.kind ∨ tree'.kind = "pointer_declarator"
  through : tree.FitsThrough pointerShape part kind → tree'.FitsThrough pointerShape part kind
  moved : tree.FitsThrough pointerShape part kind → ∀ {above above'}, SamePointers above above' →
    Cursor.pointersAbove above = Cursor.pointerRun above →
    NameMoved bytes bytes' text more (Cursor.leaves ⟨tree, above⟩) (Cursor.leaves ⟨tree', above'⟩)

theorem fields_of_child {left left' right right' : List Tree} {child child' : Tree}
    (before : List.Forall₂ (Respelled bytes bytes') left left')
    (after : List.Forall₂ (Respelled bytes bytes') right right')
    (sameField : child.label.field = child'.label.field) :
    List.Forall₂ (fun child child' => child.label.field = child'.label.field)
      (left ++ child :: right) (left' ++ child' :: right') :=
  List.rel_append (Respelled.fields before) (.cons sameField (Respelled.fields after))

theorem Becomes.isDeclarator' {tree tree' : Tree}
    (becomes : Becomes bytes bytes' text more pointerShape part kind tree tree') :
    tree'.kind ∈ [kind, "pointer_declarator"] := by
  rcases becomes.becomes with same | isPointer
  · exact same ▸ becomes.isDeclarator
  · simp [isPointer]

/-- A node of the kind becomes the pointers that it is put into once it is changed. -/
theorem InPointers.becomes {tree inner tree' : Tree} (wrapped : InPointers count inner tree')
    (renames : Renames bytes bytes' text more part kind count changed)
    (ends : EndsInDeclarator pointerShape pointerShape part kind start pointers back)
    (isKind : tree.kind = kind) (innerKind : inner.kind = kind) (changes : changed tree inner) :
    Becomes bytes bytes' text more pointerShape part kind tree tree' := by
  have fitsPart : tree.FitsThrough pointerShape part kind → tree.Fits part := by
    rintro (⟨_, fits⟩ | ⟨isPointer, _⟩)
    · exact fits
    · exact absurd (isKind.symm.trans isPointer) ends.visible.2
  have visible : inner.isComment = false := ends.isComment_eq_false (by simp [innerKind])
  refine ⟨by simp [isKind], ?_, fun fits => ?_, fun fits above above' same plain => ?_⟩
  · rcases wrapped.kind with rfl | isPointer
    · exact Or.inl (innerKind.trans isKind.symm)
    · exact Or.inr isPointer
  · exact wrapped.fitsThrough ends (Or.inl ⟨innerKind, renames.fits changes (fitsPart fits)⟩)
  · have plain' : Cursor.pointersAbove above' = Cursor.pointerRun above' := by
      rw [← same.through, ← same.run, plain]
    obtain ⟨frames, leaves, depth, unwrapped⟩ := wrapped.leaves visible plain'
    rw [leaves]
    exact renames.moved changes (fitsPart fits) isKind innerKind (by rw [depth, same.through])
      fun none_ => unwrapped none_ ▸ same

/-- Where the siblings of a declarator say that it is the last child, and that none before it is a
pointer. -/
def Placed (shape : Pattern) (kind : String) (siblings : Siblings) (declarators : List Pattern) : Prop :=
  ∀ {label : Label} {left right : List Tree} {child : Tree},
    (Tree.node label (left ++ child :: right)).Fits shape → child.kind ∈ [kind, "pointer_declarator"] →
    siblings (namedKinds left) (namedKinds right) →
    namedKinds right = [] ∧
      ∀ other ∈ declarators, ∀ sibling ∈ namedKinds left, sibling ∉ other.head.kinds

theorem placed_alone {shape : Pattern} {front declarators : List Pattern}
    (ends : EndsInDeclarator shape pointerShape part kind start pointers back)
    (apart : DeclaratorsApart shape kind front declarators) (within : pointers :: back ⊆ declarators) :
    Placed shape kind (.alone [kind, "pointer_declarator"]) (pointers :: back) := by
  intro label left right child fits isDeclarator single
  refine ⟨ends.last_of_alone apart fits isDeclarator single, ?_⟩
  intro other isOther sibling isSibling inKinds
  exact single sibling (List.mem_append_left _ isSibling)
    (apart.declarators other (within isOther) _ inKinds)

theorem placed_last {shape : Pattern}
    (ends : EndsInDeclarator shape pointerShape part kind start pointers []) :
    Placed shape kind .last [pointers] := by
  intro label left right child _ _ last
  refine ⟨last.1, ?_⟩
  intro other isOther sibling isSibling inKinds
  rw [List.mem_singleton.mp isOther, ends.isPointers, List.mem_singleton] at inKinds
  exact last.2 (inKinds ▸ isSibling)

/-- A pointer whose one declarator becomes another one does so too. -/
theorem Becomes.inPointer {label label' : Label} {left left' right right' : List Tree} {child child' : Tree}
    (below : Becomes bytes bytes' text more pointerShape part kind child child')
    (ends : EndsInDeclarator pointerShape pointerShape part kind start pointers back)
    (apart : DeclaratorsApart pointerShape kind start (pointers :: back))
    (isPointer : label.kind = "pointer_declarator") (isPointer' : label'.kind = "pointer_declarator")
    (before : List.Forall₂ (Respelled bytes bytes') left left')
    (after : List.Forall₂ (Respelled bytes bytes') right right')
    (single : Siblings.alone [kind, "pointer_declarator"] (namedKinds left) (namedKinds right))
    (sameField : child.label.field = child'.label.field) :
    Becomes bytes bytes' text more pointerShape part kind (.node label (left ++ child :: right))
      (.node label' (left' ++ child' :: right')) := by
  have fitsPointer : (Tree.node label (left ++ child :: right)).FitsThrough pointerShape part kind →
      (Tree.node label (left ++ child :: right)).Fits pointerShape := by
    rintro (⟨same, _⟩ | ⟨_, fits⟩)
    · exact absurd (same.symm.trans isPointer) ends.visible.2
    · exact fits
  refine ⟨by simp [Tree.kind, Tree.label, isPointer], Or.inr isPointer',
    fun fits => Or.inr ⟨isPointer', ?_⟩, fun fits above above' same plain => ?_⟩
  · obtain ⟨last, absent⟩ :=
      placed_alone ends apart (List.Subset.refl _) (fitsPointer fits) below.isDeclarator single
    exact ends.change (fitsPointer fits) before after last absent below.isDeclarator below.becomes
      below.through
  · have sameKind : label.kind = label'.kind := isPointer.trans isPointer'.symm
    have fields := fields_of_child before after sameField
    have fitsChild := ends.fitsThrough_of_child (fitsPointer fits) below.isDeclarator
    refine nameMoved_of_child (by rw [isPointer]; decide) sameKind before after
      (ends.isComment_eq_false below.isDeclarator) (ends.isComment_eq_false below.isDeclarator')
      (fun index => same.cons sameKind (Tree.fieldIndex?_eq _ fields)) fun index => ?_
    refine below.moved fitsChild (same.cons sameKind (Tree.fieldIndex?_eq _ fields))
      (Cursor.pointersAbove_cons_of_other ?_)
    simp [Tree.kind, Tree.label, isPointer]

/-- Rewrapping goes down through the pointers that are there already. -/
theorem Rewrapped.becomes (renames : Renames bytes bytes' text more part kind count changed)
    (ends : EndsInDeclarator pointerShape pointerShape part kind start pointers back)
    (apart : DeclaratorsApart pointerShape kind start (pointers :: back)) {depth : Nat} {tree tree' : Tree}
    (rewrapped : Rewrapped bytes bytes' kind count changed depth tree tree') :
    Becomes bytes bytes' text more pointerShape part kind tree tree' := by
  induction depth generalizing tree tree' with
  | zero =>
      obtain ⟨isKind, inner, innerKind, changes, wrapped⟩ := rewrapped
      exact wrapped.becomes renames ends isKind innerKind changes
  | succ depth ih =>
      cases rewrapped with
      | child isPointer isPointer' before after single sameField changes =>
          exact (ih changes).inPointer ends apart isPointer isPointer' before after single sameField

/-- Kinds of nodes that are no declarators, and from which what is below is captured. -/
def declarationKinds : List String :=
  ["type_definition", "declaration", "parameter_declaration", "parameter_list"]

theorem declarationKinds_plain : ∀ kind ∈ declarationKinds,
    (Capture.isCaptured kind = false ∧ kind ∉ Capture.silentKinds) ∧
    kind ∉ ["function_declarator", "array_declarator", "pointer_declarator"] := by
  decide

/-- A declaration whose last child is a declarator that becomes another one. -/
theorem ChangedAt.declaration {shape : Pattern} {nodeKind : String} {siblings : Siblings} {tree tree' : Tree}
    (change : ChangedAt bytes bytes' nodeKind siblings changed tree tree')
    (isDeclaration : nodeKind ∈ declarationKinds)
    (ends : EndsInDeclarator shape pointerShape part kind start pointers back)
    (placed : Placed shape kind siblings (pointers :: back))
    (becomes : ∀ {tree tree'}, changed tree tree' →
      Becomes bytes bytes' text more pointerShape part kind tree tree')
    (fits : tree.Fits shape) : tree'.Fits shape ∧ ∀ above above',
      NameMoved bytes bytes' text more (Cursor.leaves ⟨tree, above⟩)
        (Cursor.leaves ⟨tree', above'⟩) := by
  cases change with
  | @child label label' left left' right right' child child' isKind isKind' before after stand sameField
      changes =>
  have below := becomes changes
  obtain ⟨last, absent⟩ := placed fits below.isDeclarator stand
  have fitsChild := ends.fitsThrough_of_child fits below.isDeclarator
  obtain ⟨loud, plain⟩ := declarationKinds_plain nodeKind isDeclaration
  refine ⟨ends.change fits before after last absent below.isDeclarator below.becomes below.through,
    fun above above' => ?_⟩
  have sameKind : label.kind = label'.kind := isKind.trans isKind'.symm
  have plainHere : (Tree.node label (left ++ child :: right)).kind
      ∉ ["function_declarator", "array_declarator", "pointer_declarator"] := by
    simpa [Tree.kind, Tree.label, isKind] using plain
  refine nameMoved_of_child (isKind ▸ loud) sameKind before after
    (ends.isComment_eq_false below.isDeclarator) (ends.isComment_eq_false below.isDeclarator')
    (fun index => .of_plain plainHere sameKind) fun index => ?_
  obtain ⟨through, run⟩ := SamePointers.pointersAbove_of_plain index above plainHere
  exact below.moved fitsChild (.of_plain plainHere sameKind) (through.trans run.symm)

/-! ### Names that are spelled again -/

theorem renames_name {kind : String} (isName : kind ∈ ["identifier", "type_identifier"]) :
    Renames bytes bytes' text more (leaf [kind] .zeroOrOne) kind more (RespelledName bytes bytes' text) where
  fits _ _ := .leaf rfl
  moved := by
    rintro tree inner above frames ⟨isText, same⟩ _ isKind innerKind depth _
    have captured : ∀ kind ∈ ["identifier", "type_identifier"],
        Capture.isCaptured kind = true := by decide
    have name : Cursor.kind ⟨tree, above⟩ = kind := isKind
    have name' : Cursor.kind ⟨inner, frames⟩ = kind := innerKind
    rw [Cursor.leaves_of_captured (by rw [name]; exact captured kind isName),
      Cursor.leaves_of_captured (by rw [name']; exact captured kind isName)]
    have isCaptured : Capture.isCaptured tree.kind = true := isKind ▸ captured kind isName
    exact .name .nil (by rwa [name]) (name.trans name'.symm) isText
      ((same.text_eq isCaptured).symm.trans isText) (Or.inl depth) .nil

/-- A function declarator that fits has a name and parameters. -/
theorem kinds_of_functionDeclarator {tree : Tree} (fits : tree.Fits functionDeclarator) :
    namedKinds tree.children = ["identifier", "parameter_list"] := by
  obtain ⟨⟨shares, cut⟩, _⟩ := fits.parts (by decide)
  have items : childItems functionDeclarator.children = [[leaf ["identifier"] .one],
      [branch ["parameter_list"] .one [parameterPattern]]] := rfl
  rw [items] at cut
  obtain ⟨first, _, _, whole, ⟨one, isName⟩, later⟩ := cut.of_single
  obtain ⟨second, _, _, rfl, ⟨other, isList⟩, last⟩ := later.of_single
  obtain ⟨name, rfl⟩ : ∃ name, first = [name] := List.length_eq_one_iff.mp one
  obtain ⟨list, rfl⟩ : ∃ list, second = [list] := List.length_eq_one_iff.mp other
  have nameKind := (Head.accepts_iff (by decide) _).mp (isName name List.mem_cons_self)
  have listKind := (Head.accepts_iff (by decide) _).mp (isList list List.mem_cons_self)
  cases last
  rw [whole, List.mem_singleton.mp nameKind, List.mem_singleton.mp listKind]
  rfl

theorem pointersAbove_cons_of_function {parent : Tree} {index : Nat} {above : List Frame}
    (isFunction : parent.kind = "function_declarator") :
    Cursor.pointersAbove (⟨parent, index⟩ :: above) =
      if parent.fieldIndex? "declarator" = some index then Cursor.pointersAbove above else 0 := by
  simp [Cursor.pointersAbove, isFunction]

/-- If there are more pointers around a function declarator, its name alone has more. -/
theorem nameMoved_of_function {node node' : Cursor} (same : Respelled bytes bytes' node.focus node'.focus)
    (fits : node.focus.Fits functionDeclarator) (isFunction : node.kind = "function_declarator")
    (named : ∃ name ∈ node.focus.named, name.kind = "identifier" ∧
      Text.collapsed (name.label.textIn bytes) = text)
    (depth : Cursor.pointersAbove node'.above = Cursor.pointersAbove node.above + more) :
    NameMoved bytes bytes' text more node.leaves node'.leaves := by
  have isFunction' : node'.kind = "function_declarator" := same.kind_eq.symm.trans isFunction
  have kinds := kinds_of_functionDeclarator fits
  rw [← Cursor.map_kind_named, List.map_eq_cons_iff] at kinds
  obtain ⟨name, others, inOrder, nameKind, kinds⟩ := kinds
  obtain ⟨list, none_, rfl, listKind, rest⟩ := List.map_eq_cons_iff.mp kinds
  obtain rfl : none_ = [] := List.map_eq_nil_iff.mp rest
  have isText : name.textIn bytes = text := by
    obtain ⟨tree, isNamed, isIdentifier, isText⟩ := named
    obtain ⟨child, isChild, rfl⟩ := Cursor.exists_focus_eq_of_mem_named isNamed
    rw [inOrder] at isChild
    rcases List.mem_pair.mp isChild with rfl | rfl
    · exact isText
    · exact absurd (listKind.symm.trans isIdentifier) (by decide)
  have children := respelled_named same
  rw [inOrder] at children
  obtain ⟨name', others', ⟨sameName, index, above, above'⟩, later, inOrder'⟩ :=
    List.forall₂_cons_left_iff.mp children
  obtain ⟨list', none_, ⟨sameList, _⟩, last, rfl⟩ := List.forall₂_cons_left_iff.mp later
  obtain rfl : none_ = [] := List.forall₂_nil_left_iff.mp last
  have nameKind' : name'.kind = "identifier" := sameName.kind_eq.symm.trans nameKind
  have sameFields : node.focus.fieldIndex? "declarator" = node'.focus.fieldIndex? "declarator" :=
    Tree.fieldIndex?_eq _ (Respelled.fields same.children)
  have isCaptured : Capture.isCaptured name.kind = true := by
    rw [nameKind]
    decide
  have nameLeaves : name.leaves = [name] := Cursor.leaves_of_captured isCaptured
  have nameLeaves' : name'.leaves = [name'] := Cursor.leaves_of_captured (by rw [nameKind']; decide)
  have listLeaves : List.Forall₂ (SameLeaf bytes bytes') list.leaves list'.leaves :=
    sameList.leaves_of_plain (by rw [listKind]; decide) (by rw [listKind]; decide)
  have leaves : node.leaves = name :: list.leaves := by
    rw [Cursor.leaves_of_children (by rw [isFunction]; decide) (by rw [isFunction]; decide), inOrder]
    simp [nameLeaves]
  have leaves' : node'.leaves = name' :: list'.leaves := by
    rw [Cursor.leaves_of_children (by rw [isFunction']; decide) (by rw [isFunction']; decide), inOrder']
    simp [nameLeaves']
  rw [leaves, leaves']
  refine .name .nil (by rw [nameKind]; decide) (nameKind.trans nameKind'.symm) isText ?_ ?_ listLeaves
  · exact (sameName.text_eq isCaptured).symm.trans isText
  · -- The pointers are counted through the function, if the name fills the field for its declarator.
    rw [Cursor.pointerDepth, Cursor.pointerDepth, above, above', pointersAbove_cons_of_function isFunction,
      pointersAbove_cons_of_function isFunction', ← sameFields]
    split
    · exact Or.inl depth
    · exact Or.inr ⟨rfl, rfl⟩

theorem renames_function :
    Renames bytes bytes' text more functionDeclarator "function_declarator" more
      (RespelledFunction bytes bytes' text) where
  fits changes fits := changes.2.fits fits
  moved changes fits isKind _ depth _ := nameMoved_of_function changes.2 fits isKind changes.1 depth

/-! ### Names of parameters -/

/-- In a shape, children of a kind have one shape. -/
structure Holds (shape childShape : Pattern) (kind : String) : Prop where
  visible : kind ≠ "comment"
  named : ∀ part ∈ shape.children, part.head.kinds ≠ []
  only : ∀ part ∈ shape.children, kind ∈ part.head.kinds → part.shape (some shape) = childShape
  shaped : shape.children ≠ []

/-- The parameters of a function declarator. -/
def parameterList : Pattern := branch ["parameter_list"] .one [parameterPattern]

theorem holds_function : Holds functionDeclarator parameterList "parameter_list" := by
  constructor <;> decide

theorem holds_parameterList : Holds parameterList parameterPattern "parameter_declaration" := by
  constructor <;> decide

namespace Holds

variable {shape childShape : Pattern} {kind : String} {label label' : Label}
  {left left' right right' : List Tree} {child child' : Tree}

theorem isComment_eq_false (holds : Holds shape childShape kind) (isKind : child.kind = kind) :
    child.isComment = false := by
  simpa [Tree.isComment, isKind] using holds.visible

theorem fits_child (holds : Holds shape childShape kind) (isKind : child.kind = kind)
    (fits : (Tree.node label (left ++ child :: right)).Fits shape) : child.Fits childShape := by
  have visible := holds.isComment_eq_false isKind
  obtain ⟨_, each⟩ := fits.parts holds.shaped
  obtain ⟨part, isPart, accepts, fitsPart⟩ := each child (by simp [Tree.named, Tree.children, visible])
  have ofPart := (Head.accepts_iff (holds.named part isPart) _).mp accepts
  rwa [holds.only part isPart (isKind ▸ ofPart)] at fitsPart

/-- A child may become another one of its kind that fits. -/
theorem change (holds : Holds shape childShape kind) (isKind : child.kind = kind)
    (isKind' : child'.kind = kind) (before : List.Forall₂ (Respelled bytes bytes') left left')
    (after : List.Forall₂ (Respelled bytes bytes') right right') (fitsChild : child'.Fits childShape)
    (fits : (Tree.node label (left ++ child :: right)).Fits shape) :
    (Tree.node label' (left' ++ child' :: right')).Fits shape := by
  refine fits.change holds.shaped before after (holds.isComment_eq_false isKind)
    (holds.isComment_eq_false isKind') (fun shares cut => ⟨shares, ?_⟩) fun part fitsPart => ?_
  · rwa [isKind', ← isKind]
  · obtain ⟨isPart, accepts, _⟩ := fitsPart
    rw [isKind] at accepts
    have ofPart := (Head.accepts_iff (holds.named part isPart) _).mp accepts
    refine ⟨part, isPart, isKind' ▸ accepts, ?_⟩
    rwa [holds.only part isPart ofPart]

end Holds

theorem ChangedAt.kind_eq {kind : String} {siblings : Siblings} {tree tree' : Tree}
    (change : ChangedAt bytes bytes' kind siblings changed tree tree') :
    tree.kind = kind ∧ tree'.kind = kind := by
  cases change with
  | child isKind isKind' _ _ _ _ _ => exact ⟨isKind, isKind'⟩

theorem apart_pointersTo : ∀ kind ∈ ["identifier", "type_identifier"],
    DeclaratorsApart (pointersTo kind) kind [leaf ["type_qualifier"] .zeroOrMore]
      [nested ["pointer_declarator"] .zeroOrOne, leaf [kind] .zeroOrOne] := by
  intro kind isName
  rcases List.mem_pair.mp isName with rfl | rfl <;> constructor <;> decide

theorem apart_parameter : DeclaratorsApart parameterPattern "identifier"
    (leaf ["type_qualifier"] .zeroOrMore :: typeParts ++ [leaf ["type_qualifier"] .zeroOrMore])
    [leaf ["identifier"] .zeroOrOne, pointersTo "identifier"] := by
  constructor <;> decide

theorem apart_functionPointers : DeclaratorsApart functionPointers "function_declarator" []
    [nested ["pointer_declarator"] .zeroOrOne, functionDeclarator] := by
  constructor <;> decide

theorem apart_function : DeclaratorsApart functionPattern "function_declarator"
    (leaf ["storage_class_specifier"] .zeroOrOne :: leaf ["type_qualifier"] .zeroOrOne :: typeParts)
    [functionDeclarator, functionPointers] := by
  constructor <;> decide

/-- A parameter whose name is put into pointers still fits. -/
theorem becomes_name {kind : String} (isName : kind ∈ ["identifier", "type_identifier"]) {depth : Nat}
    {tree tree' : Tree}
    (rewrapped : Rewrapped bytes bytes' kind more (RespelledName bytes bytes' text) depth tree tree') :
    Becomes bytes bytes' text more (pointersTo kind) (leaf [kind] .zeroOrOne) kind tree tree' :=
  rewrapped.becomes (renames_name isName) (endsInDeclarator_pointersTo kind isName)
    (apart_pointersTo kind isName)

theorem renames_parameter {depth : Nat} :
    Renames bytes bytes' text more functionDeclarator "function_declarator" 0
      (RewrappedParameter bytes bytes' text more depth) := by
  -- What becomes of the list of parameters does not depend on what is above it.
  have lists : ∀ {list list' : Tree}, ChangedAt bytes bytes' "parameter_list" (fun _ _ => True)
      (ChangedAt bytes bytes' "parameter_declaration" (.alone ["identifier", "pointer_declarator"]) <|
        Rewrapped bytes bytes' "identifier" more (RespelledName bytes bytes' text) depth) list list' →
      list.Fits parameterList → list'.Fits parameterList ∧ ∀ above above',
        NameMoved bytes bytes' text more (Cursor.leaves ⟨list, above⟩)
          (Cursor.leaves ⟨list', above'⟩) := by
    intro list list' change fits
    cases change with
    | @child label label' left left' right right' child child' isKind isKind' before after _ _ changes =>
    obtain ⟨childKind, childKind'⟩ := changes.kind_eq
    obtain ⟨fitsChild, moved⟩ := changes.declaration (by decide) endsInDeclarator_parameter
      (placed_alone endsInDeclarator_parameter apart_parameter (by decide)) (becomes_name (by decide))
      (holds_parameterList.fits_child childKind fits)
    refine ⟨holds_parameterList.change childKind childKind' before after fitsChild fits,
      fun above above' => ?_⟩
    have plain : (Tree.node label (left ++ child :: right)).kind
        ∉ ["function_declarator", "array_declarator", "pointer_declarator"] := by
      simp [Tree.kind, Tree.label, isKind]
    exact nameMoved_of_child (by rw [isKind]; decide) (isKind.trans isKind'.symm) before after
      (holds_parameterList.isComment_eq_false childKind) (holds_parameterList.isComment_eq_false childKind')
      (fun _ => .of_plain plain (isKind.trans isKind'.symm)) fun _ => moved _ _
  constructor
  · intro tree inner change fits
    cases change with
    | child _ _ before after _ _ changes =>
    obtain ⟨listKind, listKind'⟩ := changes.kind_eq
    obtain ⟨fitsList, _⟩ := lists changes (holds_function.fits_child listKind fits)
    exact holds_function.change listKind listKind' before after fitsList fits
  · intro tree inner above frames change fits _ _ _ same
    cases change with
    | child isKind isKind' before after _ sameField changes =>
    obtain ⟨listKind, listKind'⟩ := changes.kind_eq
    obtain ⟨_, moved⟩ := lists changes (holds_function.fits_child listKind fits)
    have sameKind := isKind.trans isKind'.symm
    have fields := fields_of_child before after sameField
    exact nameMoved_of_child (by rw [isKind]; decide) sameKind before after
      (holds_function.isComment_eq_false listKind) (holds_function.isComment_eq_false listKind')
      (fun _ => (same rfl).cons sameKind (Tree.fieldIndex?_eq _ fields)) fun _ => moved _ _

/-! ### Claimed declarations -/

theorem Rewraps.isPlain {action : Action} {tree tree' : Tree}
    (rewraps : Rewraps bytes bytes' text more action tree tree') :
    action ∈ [.defineConstant, .declareAlias, .declareFunction] := by
  cases rewraps <;> simp

/-- A declaration whose declarator is rewrapped fits its shape as before, with a moved name. -/
theorem Rewraps.fits {action : Action} {tree tree' : Tree}
    (rewraps : Rewraps bytes bytes' text more action tree tree') :
    ∃ pattern, (pattern, action) ∈ shapeList ∧ pattern.head.kinds = [tree'.kind] ∧
      (tree.Fits pattern → tree'.Fits pattern ∧ ∀ above above',
        NameMoved bytes bytes' text more (Cursor.leaves ⟨tree, above⟩)
          (Cursor.leaves ⟨tree', above'⟩)) := by
  cases rewraps with
  | definedName changed =>
      refine ⟨typedefPattern, by decide, by rw [changed.kind_eq.2]; rfl, fun fits => ?_⟩
      exact changed.declaration (by decide) endsInDeclarator_typedef
        (placed_last endsInDeclarator_typedef) (becomes_name (by decide)) fits
  | function changed =>
      refine ⟨functionPattern, by decide, by rw [changed.kind_eq.2]; rfl, fun fits => ?_⟩
      exact changed.declaration (by decide) endsInDeclarator_function
        (placed_alone endsInDeclarator_function apart_function (by decide))
        (fun rewrapped => rewrapped.becomes renames_function endsInDeclarator_functionPointers
          apart_functionPointers) fits
  | parameter changed =>
      refine ⟨functionPattern, by decide, by rw [changed.kind_eq.2]; rfl, fun fits => ?_⟩
      exact changed.declaration (by decide) endsInDeclarator_function
        (placed_alone endsInDeclarator_function apart_function (by decide))
        (fun rewrapped => rewrapped.becomes renames_parameter endsInDeclarator_functionPointers
          apart_functionPointers) fits

end

theorem Capture.Restarred.map_kind_eq {text : String} {more : Nat} {captures captures' : List Capture}
    (restarred : Restarred text more captures captures') :
    captures'.map Capture.kind = captures.map Capture.kind := by
  have kept : ∀ (stars : String) (earlier : List Capture),
      (appendLatest stars earlier).map Capture.kind = earlier.map Capture.kind := by
    intro stars earlier
    cases earlier <;> rfl
  cases restarred with
  | name isName moved => simp [List.map_reverse, kept]

namespace Rules

/-- From a claimed macro, alias or function, what is captured is spelled by the captured nodes. -/
theorem captures_of_plainClaim {cursor : Cursor} {claim : Claim Action} {action : Action}
    (claimed : table.claim? alphabet cursor = some claim) (taken : claim.entry.action = some action)
    (isPlain : action ∈ [.defineConstant, .declareAlias, .declareFunction]) (bytes : List UInt8) :
    claim.found.captures bytes = spelled bytes cursor.leaves := by
  rw [captures_of_claim claimed, Cursor.captures_eq_spelled]
  exact noField_of_plain isPlain fun _ isShape => finds_of_claim claimed taken isShape

/-- If no field's name is among the captured nodes of a match, there is one capture for each of them,
with its kind and its text, and with the stars of the next one after it exactly if that is a name with
pointers. So pointers change stars alone: if the name that a claimed type definition defines, the
function declarator of a claimed declaration or the name of a parameter of one is put into a number of
pointers more, where it is the one declarator, the declaration is claimed as before, with as many
captures of the same kinds in the same order, and with the same texts but for the stars of the capture
before the name. -/
theorem layout_of_captures :
    (∀ (found : Match) (bytes : List UInt8),
      (∀ leaf ∈ found.leaves, leaf.kind ≠ "field_identifier") →
      found.LaidOut bytes) ∧
    ∀ {bytes bytes' : List UInt8} {text : String} {more : Nat} {action : Action} {tree tree' : Tree},
      Rewraps bytes bytes' text more action tree tree' → ∀ above above' claim,
      table.claim? alphabet ⟨tree, above⟩ = some claim → claim.entry.action = some action →
      ∃ claim', table.claim? alphabet ⟨tree', above'⟩ = some claim' ∧
        claim'.entry.action = some action ∧
        (claim'.found.captures bytes').map Capture.kind = (claim.found.captures bytes).map Capture.kind ∧
        Capture.Restarred text more (claim.found.captures bytes) (claim'.found.captures bytes') := by
  refine ⟨fun found bytes => found.laidOut_of_noField bytes, ?_⟩
  intro bytes bytes' text more action tree tree' rewraps above above' claim claimed taken
  obtain ⟨pattern, isShape, kinds, carried⟩ := rewraps.fits
  have finds := finds_of_claim claimed taken isShape
  have alone : pattern.shape none = pattern := by simp [Pattern.shape]
  obtain ⟨fits', moved⟩ := carried (alone ▸ finds.fits)
  have accepts : pattern.head.accepts tree'.kind = true :=
    (Head.accepts_iff (by simp [kinds]) _).mpr (by simp [kinds])
  obtain ⟨claim', claimed', taken'⟩ := claim_of_fits isShape accepts fits' above'
  have restarred : Capture.Restarred text more (claim.found.captures bytes)
      (claim'.found.captures bytes') := by
    rw [captures_of_plainClaim claimed taken rewraps.isPlain,
      captures_of_plainClaim claimed' taken' rewraps.isPlain]
    exact (moved above above').restarred
  exact ⟨claim', claimed', taken', restarred.map_kind_eq, restarred⟩

/-- The declaration `char *f(int n);`. -/
def plainParameter : Document where
  bytes := "char *f(int n);".toUTF8.toList
  tree := .node ⟨"declaration", 0, 15, none⟩ [
    .node ⟨"primitive_type", 0, 4, some "type"⟩ [],
    .node ⟨"pointer_declarator", 5, 14, some "declarator"⟩ [
      .node ⟨"function_declarator", 6, 14, some "declarator"⟩ [
        .node ⟨"identifier", 6, 7, some "declarator"⟩ [],
        .node ⟨"parameter_list", 7, 14, some "parameters"⟩ [
          .node ⟨"parameter_declaration", 8, 13, none⟩ [
            .node ⟨"primitive_type", 8, 11, some "type"⟩ [],
            .node ⟨"identifier", 12, 13, some "declarator"⟩ []]]]]]
  hasError := false

/-- The declaration `char *f(int **n);`. -/
def starredParameter : Document where
  bytes := "char *f(int **n);".toUTF8.toList
  tree := .node ⟨"declaration", 0, 17, none⟩ [
    .node ⟨"primitive_type", 0, 4, some "type"⟩ [],
    .node ⟨"pointer_declarator", 5, 16, some "declarator"⟩ [
      .node ⟨"function_declarator", 6, 16, some "declarator"⟩ [
        .node ⟨"identifier", 6, 7, some "declarator"⟩ [],
        .node ⟨"parameter_list", 7, 16, some "parameters"⟩ [
          .node ⟨"parameter_declaration", 8, 15, none⟩ [
            .node ⟨"primitive_type", 8, 11, some "type"⟩ [],
            .node ⟨"pointer_declarator", 12, 15, some "declarator"⟩ [
              .node ⟨"pointer_declarator", 13, 15, some "declarator"⟩ [
                .node ⟨"identifier", 14, 15, some "declarator"⟩ []]]]]]]]
  hasError := false

theorem rewraps_starredParameter :
    Rewraps plainParameter.bytes starredParameter.bytes "n" 2 .declareFunction plainParameter.tree
      starredParameter.tree := by
  have respelled : ∀ {label label' : Label}, label.kind = label'.kind → label.field = label'.field →
      Text.collapsed (label.textIn plainParameter.bytes)
        = Text.collapsed (label'.textIn starredParameter.bytes) →
      Respelled plainParameter.bytes starredParameter.bytes (.node label []) (.node label' []) :=
    fun sameKind sameField sameText => .node sameKind sameField (fun _ => sameText) .nil
  -- From the declaration down to the name: a pointer, the function, its parameters, and the one parameter.
  refine @Rewraps.parameter _ _ _ _ 1 0 _ _ ?_
  refine @ChangedAt.child _ _ _ _ _ _ _ [_] [_] [] [] _ _ rfl rfl
    (.cons (respelled rfl rfl (by decide +kernel)) .nil) .nil (by decide) rfl ?_
  refine @ChangedAt.child _ _ _ _ _ _ _ [] [] [] [] _ _ rfl rfl .nil .nil (by decide) rfl ?_
  refine ⟨rfl, _, rfl, ?_, .none⟩
  refine @ChangedAt.child _ _ _ _ _ _ _ [_] [_] [] [] _ _ rfl rfl
    (.cons (respelled rfl rfl (by decide +kernel)) .nil) .nil trivial rfl ?_
  refine @ChangedAt.child _ _ _ _ _ _ _ [] [] [] [] _ _ rfl rfl .nil .nil trivial rfl ?_
  refine @ChangedAt.child _ _ _ _ _ _ _ [_] [_] [] [] _ _ rfl rfl
    (.cons (respelled rfl rfl (by decide +kernel)) .nil) .nil (by decide) rfl ?_
  have name : RespelledName plainParameter.bytes starredParameter.bytes "n"
      (.node ⟨"identifier", 12, 13, some "declarator"⟩ [])
      (.node ⟨"identifier", 14, 15, some "declarator"⟩ []) :=
    ⟨by decide +kernel, respelled rfl rfl (by decide +kernel)⟩
  exact ⟨rfl, _, rfl, name, .pointer rfl (.pointer rfl .none)⟩

/-- Two pointers more around the parameter leave two stars after its type. -/
theorem layout_of_captures_starredParameter :
    ∃ claim claim', table.claim? alphabet (.root plainParameter.tree) = some claim ∧
      table.claim? alphabet (.root starredParameter.tree) = some claim' ∧
      claim.found.LaidOut plainParameter.bytes ∧
      claim.found.captures plainParameter.bytes = [⟨"primitive_type", "char *"⟩, ⟨"identifier", "f"⟩,
        ⟨"primitive_type", "int"⟩, ⟨"identifier", "n"⟩] ∧
      Capture.Restarred "n" 2 (claim.found.captures plainParameter.bytes)
        [⟨"primitive_type", "char *"⟩, ⟨"identifier", "f"⟩, ⟨"primitive_type", "int **"⟩,
          ⟨"identifier", "n"⟩] := by
  have evaluated : (table.claim? alphabet (.root plainParameter.tree)).map (fun claim =>
      (claim.entry.action, claim.found.leaves.map Cursor.kind, claim.found.captures plainParameter.bytes))
      = some (some .declareFunction, ["primitive_type", "identifier", "primitive_type", "identifier"],
        [⟨"primitive_type", "char *"⟩, ⟨"identifier", "f"⟩, ⟨"primitive_type", "int"⟩,
          ⟨"identifier", "n"⟩]) := by
    rw [table_eq, alphabet_eq]
    decide +kernel
  have evaluated' : (table.claim? alphabet (.root starredParameter.tree)).map (fun claim =>
      claim.found.captures starredParameter.bytes)
      = some [⟨"primitive_type", "char *"⟩, ⟨"identifier", "f"⟩, ⟨"primitive_type", "int **"⟩,
          ⟨"identifier", "n"⟩] := by
    rw [table_eq, alphabet_eq]
    decide +kernel
  obtain ⟨claim, claimed, content⟩ := Option.map_eq_some_iff.mp evaluated
  obtain ⟨taken, kinds, captures⟩ : claim.entry.action = some .declareFunction ∧
      claim.found.leaves.map Cursor.kind
        = ["primitive_type", "identifier", "primitive_type", "identifier"] ∧
      claim.found.captures plainParameter.bytes = [⟨"primitive_type", "char *"⟩, ⟨"identifier", "f"⟩,
        ⟨"primitive_type", "int"⟩, ⟨"identifier", "n"⟩] := by
    simpa using content
  have noField : ∀ leaf ∈ claim.found.leaves, leaf.kind ≠ "field_identifier" := by
    intro leaf member isField
    have named : leaf.kind ∈ claim.found.leaves.map Cursor.kind := List.mem_map_of_mem member
    rw [kinds, isField] at named
    exact absurd named (by decide)
  obtain ⟨claim', claimed', _, _, restarred⟩ :=
    layout_of_captures.2 rewraps_starredParameter [] [] claim claimed taken
  have captures' : claim'.found.captures starredParameter.bytes = [⟨"primitive_type", "char *"⟩,
      ⟨"identifier", "f"⟩, ⟨"primitive_type", "int **"⟩, ⟨"identifier", "n"⟩] := by
    rw [Cursor.root, claimed', Option.map_some] at evaluated'
    exact Option.some.inj evaluated'
  exact ⟨claim, claim', claimed, claimed', layout_of_captures.1 claim.found plainParameter.bytes noField,
    captures, captures' ▸ restarred⟩

end Rules

end HeaderBindings
