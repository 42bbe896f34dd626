/-
Module: HeaderBindings.Proofs.DeclaratorShapes
Purpose: Shapes of the default grammar that end in a declarator: which trees fit them, and which still
  do when the declarator becomes another one.
Main exports: Siblings, EndsInDeclarator, DeclaratorsApart, Tree.FitsThrough, EndsInDeclarator.change
-/
import HeaderBindings.Proofs.FittingTrees
import HeaderBindings.Proofs.FunctionDeclarators

namespace HeaderBindings

open Pattern Rules

/-! ### Siblings -/

/-- What is said of the kinds of the siblings before a child and after it. -/
abbrev Siblings := List String → List String → Prop

/-- No sibling is of one of some kinds. -/
def Siblings.alone (kinds : List String) : Siblings :=
  fun before after => ∀ kind ∈ before ++ after, kind ∉ kinds

instance (kinds before after : List String) : Decidable (Siblings.alone kinds before after) :=
  inferInstanceAs (Decidable (∀ kind ∈ _, _))

/-- No sibling comes later, and none before is a pointer. -/
def Siblings.last : Siblings :=
  fun before after => after = [] ∧ "pointer_declarator" ∉ before

/-! ### Shapes that end in a declarator -/

/-- A shape ends in a declarator: a name of a kind that a part reads, or pointers around one that have a
shape. Everything in it may be missing. -/
structure EndsInDeclarator (shape pointerShape part : Pattern) (kind : String) (start : List Pattern)
    (pointers : Pattern) (back : List Pattern) : Prop where
  visible : kind ≠ "comment" ∧ kind ≠ "pointer_declarator"
  children : shape.children = start ++ pointers :: back
  named : ∀ other ∈ shape.children, other.head.kinds ≠ []
  droppable : ∀ other ∈ shape.children, other.Droppable
  isPointers : pointers.head.kinds = ["pointer_declarator"]
  pointersShape : pointers.shape (some shape) = pointerShape
  onlyPointers : ∀ other ∈ shape.children, "pointer_declarator" ∈ other.head.kinds → other = pointers
  isPart : part ∈ shape.children
  partKinds : part.head.kinds = [kind]
  partShape : part.shape (some shape) = part
  onlyPart : ∀ other ∈ shape.children,
    kind ∈ other.head.kinds → other = part ∨ part.children.isEmpty = true

/-- The declarators of a shape are apart from everything before them. -/
structure DeclaratorsApart (shape : Pattern) (kind : String) (front declarators : List Pattern) : Prop where
  children : shape.children = front ++ declarators
  front : ∀ other ∈ front, ∀ ofFront ∈ other.head.kinds, ofFront ∉ [kind, "pointer_declarator"]
  declarators : ∀ other ∈ declarators,
    ∀ ofOther ∈ other.head.kinds, ofOther ∈ [kind, "pointer_declarator"]

/-- A declarator fits where a name of a kind is expected, maybe in pointers. -/
def Tree.FitsThrough (pointerShape part : Pattern) (kind : String) (tree : Tree) : Prop :=
  tree.kind = kind ∧ tree.Fits part ∨ tree.kind = "pointer_declarator" ∧ tree.Fits pointerShape

theorem endsInDeclarator_typedef : EndsInDeclarator typedefPattern (pointersTo "type_identifier")
    (leaf ["type_identifier"] .zeroOrOne) "type_identifier"
    (leaf ["type_qualifier"] .zeroOrMore :: typeParts ++ [leaf ["type_identifier"] .zeroOrOne])
    (pointersTo "type_identifier") [] := by
  constructor <;> decide

theorem endsInDeclarator_pointersTo : ∀ kind ∈ ["identifier", "type_identifier"],
    EndsInDeclarator (pointersTo kind) (pointersTo kind) (leaf [kind] .zeroOrOne) kind
      [leaf ["type_qualifier"] .zeroOrMore] (nested ["pointer_declarator"] .zeroOrOne)
      [leaf [kind] .zeroOrOne] := by
  intro kind isName
  rcases List.mem_pair.mp isName with rfl | rfl <;> constructor <;> decide

/-- The pointers around the function declarators of a declaration. -/
def functionPointers : Pattern :=
  branch ["pointer_declarator"] .zeroOrOne [nested ["pointer_declarator"] .zeroOrOne, functionDeclarator]

theorem endsInDeclarator_function : EndsInDeclarator functionPattern functionPointers functionDeclarator
    "function_declarator"
    (leaf ["storage_class_specifier"] .zeroOrOne :: leaf ["type_qualifier"] .zeroOrOne :: typeParts
      ++ [functionDeclarator]) functionPointers [] := by
  constructor <;> decide

theorem endsInDeclarator_functionPointers : EndsInDeclarator functionPointers functionPointers
    functionDeclarator "function_declarator" [] (nested ["pointer_declarator"] .zeroOrOne)
    [functionDeclarator] := by
  constructor <;> decide

theorem endsInDeclarator_parameter : EndsInDeclarator parameterPattern (pointersTo "identifier")
    (leaf ["identifier"] .zeroOrOne) "identifier"
    (leaf ["type_qualifier"] .zeroOrMore :: typeParts
      ++ [leaf ["type_qualifier"] .zeroOrMore, leaf ["identifier"] .zeroOrOne])
    (pointersTo "identifier") [] := by
  constructor <;> decide

namespace EndsInDeclarator

variable {bytes bytes' : List UInt8} {shape pointerShape part pointers : Pattern} {kind : String}
  {start back : List Pattern}

theorem isComment_eq_false {tree : Tree}
    (ends : EndsInDeclarator shape pointerShape part kind start pointers back)
    (isDeclarator : tree.kind ∈ [kind, "pointer_declarator"]) : tree.isComment = false := by
  rcases List.mem_pair.mp isDeclarator with same | same
  · simpa [Tree.isComment, same] using ends.visible.1
  · simp [Tree.isComment, same]

/-- A declarator fits one of the child patterns exactly if it fits the last ones. -/
theorem exists_fitsPart_iff {tree : Tree}
    (ends : EndsInDeclarator shape pointerShape part kind start pointers back)
    (isDeclarator : tree.kind ∈ [kind, "pointer_declarator"]) :
    (∃ other, tree.FitsPart shape other) ↔ tree.FitsThrough pointerShape part kind := by
  constructor
  · rintro ⟨other, isOther, accepts, fits⟩
    have ofOther := (Head.accepts_iff (ends.named other isOther) _).mp accepts
    rcases List.mem_pair.mp isDeclarator with isName | isPointer
    · refine Or.inl ⟨isName, ?_⟩
      rcases ends.onlyPart other isOther (isName ▸ ofOther) with rfl | childless
      · rwa [ends.partShape] at fits
      · exact .leaf (List.isEmpty_iff.mp childless)
    · obtain rfl := ends.onlyPointers other isOther (isPointer ▸ ofOther)
      rw [ends.pointersShape] at fits
      exact Or.inr ⟨isPointer, fits⟩
  · rintro (⟨isName, fits⟩ | ⟨isPointer, fits⟩)
    · refine ⟨part, ends.isPart, ?_, by rwa [ends.partShape]⟩
      exact (Head.accepts_iff (ends.named part ends.isPart) _).mpr (by simp [ends.partKinds, isName])
    · have isChild : pointers ∈ shape.children := by simp [ends.children]
      refine ⟨pointers, isChild, ?_, by rwa [ends.pointersShape]⟩
      exact (Head.accepts_iff (ends.named pointers isChild) _).mpr (by simp [ends.isPointers, isPointer])

theorem fixed (ends : EndsInDeclarator shape pointerShape part kind start pointers back) :
    ∀ other ∈ shape.children, other.head.quantifier ≠ .alternative := by
  intro other isOther isAlternative
  rcases ends.droppable other isOther with same | same <;> simp [isAlternative] at same

theorem allows (ends : EndsInDeclarator shape pointerShape part kind start pointers back) :
    ∀ other ∈ shape.children, ∀ count ≤ 1, other.head.quantifier.Allows count := by
  intro other isOther count few
  rcases ends.droppable other isOther with same | same
  · rw [same]
    trivial
  · rw [same]
    exact few

/-- The last kind may become that of a pointer. -/
theorem recut {before : List String} {last : String} {shares : List Share}
    (ends : EndsInDeclarator shape pointerShape part kind start pointers back)
    (absent : ∀ other ∈ pointers :: back, ∀ sibling ∈ before, sibling ∉ other.head.kinds)
    (cut : Cut (childItems shape.children) (before ++ [last]) shares) :
    ∃ shares, Cut (childItems shape.children) (before ++ ["pointer_declarator"]) shares := by
  rw [childItems_of_fixed ends.fixed] at cut ⊢
  obtain ⟨shares, shorter⟩ := cut.drop_last ends.droppable
  have later : ∀ other ∈ pointers :: back, other ∈ shape.children := by
    intro other member
    rw [ends.children]
    exact List.mem_append_right _ member
  have accepts : pointers.head.accepts "pointer_declarator" = true :=
    (Head.accepts_iff (by simp [ends.isPointers]) _).mpr (by simp [ends.isPointers])
  rw [ends.children] at shorter ⊢
  refine shorter.append_last (fun other isOther sibling isSibling => ?_) accepts
    (ends.allows pointers (later pointers List.mem_cons_self) 1 Nat.le.refl)
    fun other isOther => ends.allows other (later other (List.mem_cons_of_mem _ isOther)) 0 (Nat.zero_le 1)
  rw [← Bool.not_eq_true, Head.accepts_iff (ends.named other (later other isOther))]
  exact absent other isOther sibling isSibling

/-- If the last child is a declarator, and becomes another one that fits or a pointer that does, the tree
still fits. -/
theorem change {label label' : Label} {left left' right right' : List Tree} {child child' : Tree}
    (ends : EndsInDeclarator shape pointerShape part kind start pointers back)
    (fits : (Tree.node label (left ++ child :: right)).Fits shape)
    (before : List.Forall₂ (Respelled bytes bytes') left left')
    (after : List.Forall₂ (Respelled bytes bytes') right right') (last : namedKinds right = [])
    (absent : ∀ other ∈ pointers :: back, ∀ sibling ∈ namedKinds left, sibling ∉ other.head.kinds)
    (isDeclarator : child.kind ∈ [kind, "pointer_declarator"])
    (becomes : child'.kind = child.kind ∨ child'.kind = "pointer_declarator")
    (through : child.FitsThrough pointerShape part kind → child'.FitsThrough pointerShape part kind) :
    (Tree.node label' (left' ++ child' :: right')).Fits shape := by
  have isDeclarator' : child'.kind ∈ [kind, "pointer_declarator"] := by
    rcases becomes with same | pointer
    · rwa [same]
    · simp [pointer]
  have shaped : shape.children ≠ [] := by simp [ends.children]
  refine fits.change shaped before after (ends.isComment_eq_false isDeclarator)
    (ends.isComment_eq_false isDeclarator') (fun shares cut => ?_) fun part fitsPart => ?_
  · rcases becomes with same | pointer
    · rw [same]
      exact ⟨shares, cut⟩
    · rw [last] at cut ⊢
      rw [pointer]
      exact ends.recut absent cut
  · rw [ends.exists_fitsPart_iff isDeclarator']
    exact through ((ends.exists_fitsPart_iff isDeclarator).mp ⟨part, fitsPart⟩)

/-- A declarator that is a child of a tree that fits does so itself. -/
theorem fitsThrough_of_child {label : Label} {left right : List Tree} {child : Tree}
    (ends : EndsInDeclarator shape pointerShape part kind start pointers back)
    (fits : (Tree.node label (left ++ child :: right)).Fits shape)
    (isDeclarator : child.kind ∈ [kind, "pointer_declarator"]) :
    child.FitsThrough pointerShape part kind := by
  have visible := ends.isComment_eq_false isDeclarator
  obtain ⟨_, each⟩ := fits.parts (by simp [ends.children])
  exact (ends.exists_fitsPart_iff isDeclarator).mp
    (each child (by simp [Tree.named, Tree.children, visible]))

/-- The one declarator of a tree that fits is the last child that is no comment. -/
theorem last_of_alone {label : Label} {left right : List Tree} {child : Tree}
    {front declarators : List Pattern}
    (ends : EndsInDeclarator shape pointerShape part kind start pointers back)
    (apart : DeclaratorsApart shape kind front declarators)
    (fits : (Tree.node label (left ++ child :: right)).Fits shape)
    (isDeclarator : child.kind ∈ [kind, "pointer_declarator"])
    (single : Siblings.alone [kind, "pointer_declarator"] (namedKinds left) (namedKinds right)) :
    namedKinds right = [] := by
  obtain ⟨⟨shares, cut⟩, _⟩ := fits.parts (by simp [ends.children])
  rw [childItems_of_fixed ends.fixed, apart.children, Tree.children, namedKinds_append,
    namedKinds_cons (ends.isComment_eq_false isDeclarator)] at cut
  have named := ends.named
  rw [apart.children] at named
  have rejects : ∀ other ∈ front ++ declarators, ∀ ofOther, ofOther ∉ other.head.kinds →
      other.head.accepts ofOther = false := by
    intro other isOther ofOther notNamed
    rw [← Bool.not_eq_true, Head.accepts_iff (named other isOther)]
    exact notNamed
  refine cut.eq_nil_of_alone (fun other isOther => ?_) fun other isOther later isLater => ?_
  · exact rejects other (List.mem_append_left _ isOther) _ fun inKinds =>
      apart.front other isOther _ inKinds isDeclarator
  · exact rejects other (List.mem_append_right _ isOther) _ fun inKinds =>
      single later (List.mem_append_right _ isLater) (apart.declarators other isOther _ inKinds)

/-- One declarator alone can be cut. -/
theorem cut_single {tree : Tree}
    (ends : EndsInDeclarator shape pointerShape part kind start pointers back)
    (isDeclarator : tree.kind ∈ [kind, "pointer_declarator"]) :
    ∃ shares, Cut (childItems shape.children) [tree.kind] shares := by
  obtain ⟨other, isOther, ofOther⟩ : ∃ other ∈ shape.children, tree.kind ∈ other.head.kinds := by
    rcases List.mem_pair.mp isDeclarator with same | same
    · exact ⟨part, ends.isPart, by simp [ends.partKinds, same]⟩
    · exact ⟨pointers, by simp [ends.children], by simp [ends.isPointers, same]⟩
  rw [childItems_of_fixed ends.fixed]
  obtain ⟨front, later, inOrder⟩ := List.append_of_mem isOther
  obtain ⟨shares, nothing⟩ :=
    Cut.skipAll fun other isOther => ends.allows other isOther 0 (Nat.zero_le 1)
  rw [inOrder] at nothing ⊢
  refine nothing.append_last (by simp) ((Head.accepts_iff (ends.named other isOther) _).mpr ofOther)
    (ends.allows other isOther 1 Nat.le.refl) fun other isLater => ends.allows other ?_ 0 (Nat.zero_le 1)
  rw [inOrder]
  exact List.mem_append_right _ (List.mem_cons_of_mem _ isLater)

end EndsInDeclarator

end HeaderBindings
