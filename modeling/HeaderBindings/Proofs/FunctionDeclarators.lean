/-
Module: HeaderBindings.Proofs.FunctionDeclarators
Purpose: What is captured from a declaration of functions, declarator by declarator, and what a function that
  is declared takes from it.
Main exports: PointersAround, ThroughPointers, leaves_of_declaration, Cursor.parameterNodes,
  leaves_of_function, returns_declareFunction_iff, Function.TakenFrom, Rules.emitted_of_function,
  Rules.dispatch_takes_from_declarator
-/
import HeaderBindings.Proofs.ClaimedCaptures
import HeaderBindings.Proofs.DeclaredNames
import HeaderBindings.Proofs.SelfTypedefs

namespace HeaderBindings

open Pattern Rules Spelling Run

variable {bytes : List UInt8}

/-! ### Declarators through pointers -/

/-- A declarator wraps a node of a kind in a number of pointers. -/
inductive PointersAround (kind : String) : Cursor → Nat → Cursor → Prop where
  | target {declarator : Cursor} (isTarget : declarator.kind = kind) :
      PointersAround kind declarator 0 declarator
  | pointer {declarator inner target : Cursor} {depth : Nat}
      (isPointer : declarator.kind = "pointer_declarator")
      (wraps : declarator.ofKinds [kind, "pointer_declarator"] = [inner])
      (around : PointersAround kind inner depth target) :
      PointersAround kind declarator (depth + 1) target

/-- The nodes of a kind that declarators lead to through pointers, in document order. -/
inductive ThroughPointers (kind : String) : List Cursor → List Cursor → Prop where
  | nil : ThroughPointers kind [] []
  | target {node : Cursor} {rest targets : List Cursor} (isTarget : node.kind = kind)
      (others : ThroughPointers kind rest targets) :
      ThroughPointers kind (node :: rest) (node :: targets)
  | pointer {node : Cursor} {rest inner targets : List Cursor}
      (isPointer : node.kind = "pointer_declarator")
      (inside : ThroughPointers kind (node.ofKinds [kind, "pointer_declarator"]) inner)
      (others : ThroughPointers kind rest targets) :
      ThroughPointers kind (node :: rest) (inner ++ targets)

/-- Pointers around one node lead to this node. -/
theorem PointersAround.through {kind : String} {declarator target : Cursor} {depth : Nat}
    (around : PointersAround kind declarator depth target) : ThroughPointers kind [declarator] [target] := by
  induction around with
  | target isTarget => exact .target isTarget .nil
  | pointer isPointer wraps _ ih => exact .pointer isPointer (wraps ▸ ih) .nil

/-- The pointers around a node are counted on the way up from it, if no other pointers are around its
declarator. -/
theorem PointersAround.pointersAbove_eq {kind : String} {declarator target : Cursor} {depth : Nat}
    (around : PointersAround kind declarator depth target)
    (outside : Cursor.pointersAbove declarator.above = Cursor.pointerRun declarator.above) :
    Cursor.pointersAbove target.above = depth + Cursor.pointerRun declarator.above := by
  induction around with
  | target _ => rw [outside, Nat.zero_add]
  | @pointer declarator inner target depth isPointer wraps _ ih =>
      have inside : inner ∈ declarator.ofKinds [kind, "pointer_declarator"] := by simp [wraps]
      obtain ⟨index, above, _⟩ := Cursor.exists_index_of_mem_named (Cursor.mem_ofKinds.mp inside).1
      have pointer : declarator.focus.kind = "pointer_declarator" := isPointer
      have other : declarator.focus.kind ≠ "function_declarator" ∧
          declarator.focus.kind ≠ "array_declarator" := by simp [pointer]
      rw [above] at ih
      rw [ih (Cursor.pointersAbove_cons_of_other other), Cursor.pointerRun_cons_of_pointer pointer]
      omega

/-- Below a node that is no declarator, there are just the pointers of the declarator. -/
theorem PointersAround.pointersAbove_eq_depth {kind : String} {parent declarator target : Cursor}
    {depth : Nat} (around : PointersAround kind declarator depth target)
    (inside : declarator ∈ parent.named)
    (plain : parent.kind ∉ ["function_declarator", "array_declarator", "pointer_declarator"]) :
    Cursor.pointersAbove target.above = depth := by
  obtain ⟨index, above, _⟩ := Cursor.exists_index_of_mem_named inside
  simp only [List.mem_cons, List.not_mem_nil, or_false, not_or, Cursor.kind] at plain
  have outside : Cursor.pointersAbove declarator.above = Cursor.pointerRun declarator.above := by
    rw [above]
    exact Cursor.pointersAbove_cons_of_other ⟨plain.1, plain.2.1⟩
  have noPointer : Cursor.pointerRun declarator.above = 0 := by
    rw [above, Cursor.pointerRun_cons]
    simp [plain.2.2]
  rw [around.pointersAbove_eq outside, noPointer, Nat.add_zero]

/-! ### What is captured through pointers -/

section

variable {alphabet : Alphabet} {enclosing : Option Pattern}

theorem flatMap_leaves_of_silent {nodes : List Cursor}
    (silent : ∀ node ∈ nodes, node.kind ∈ Capture.silentKinds) : nodes.flatMap Cursor.leaves = [] :=
  List.flatMap_eq_nil_iff.mpr fun node member => Cursor.leaves_of_silent (silent node member)

/-- What patterns of pointers say of the nodes below them: silent ones, further pointers, and one of a
kind. -/
structure WrapsKind (front : List Pattern) (part : Pattern) (kind : String) : Prop where
  kinds : part.head.kinds = [kind]
  unmixed : Unmixed (front ++ [nested ["pointer_declarator"] .zeroOrOne, part])
  silent : ∀ other ∈ front, ∀ silentKind ∈ other.head.kinds, silentKind ∈ Capture.silentKinds

theorem wrapsKind_identifier :
    WrapsKind [leaf ["type_qualifier"] .zeroOrMore] (leaf ["identifier"] .zeroOrOne) "identifier" :=
  ⟨rfl, by decide, by decide⟩

theorem wrapsKind_function : WrapsKind [] functionDeclarator "function_declarator" :=
  ⟨rfl, by decide, by decide⟩

/-- A declarator that is found where a node of a kind is expected, maybe below pointers. -/
structure FoundThrough (alphabet : Alphabet) (front : List Pattern) (part : Pattern) (kind : String)
    (node : Cursor) : Prop where
  target : node.kind = kind → ∃ enclosing, part.Finds alphabet enclosing node
  pointer : node.kind = "pointer_declarator" →
    ∃ enclosing pattern, Finds alphabet enclosing pattern node ∧
    (pattern.shape enclosing).children = front ++ [nested ["pointer_declarator"] .zeroOrOne, part]

section

variable {front : List Pattern} {part : Pattern} {kind : String}

/-- From a pointer, what is captured is captured from the declarators below it. -/
theorem FoundThrough.leaves_of_pointer {node : Cursor} (found : FoundThrough alphabet front part kind node)
    (wraps : WrapsKind front part kind) (isPointer : node.kind = "pointer_declarator") :
    node.leaves = (node.ofKinds [kind, "pointer_declarator"]).flatMap Cursor.leaves ∧
      ∀ inner ∈ node.ofKinds [kind, "pointer_declarator"],
        FoundThrough alphabet front part kind inner := by
  obtain ⟨enclosing, pattern, finds, children⟩ := found.pointer isPointer
  obtain ⟨sorted, parts⟩ := finds.siblings children (by simp) wraps.unmixed
  have swapped : node.ofKinds [kind, "pointer_declarator"]
      = node.ofKinds ["pointer_declarator", kind] :=
    List.filter_congr fun child _ => by
      simp only [List.contains_cons, List.contains_nil, Bool.or_false]
      exact Bool.or_comm ..
  have grouped : node.ofKinds ["pointer_declarator", kind]
      = node.ofKinds ["pointer_declarator"] ++ node.ofKinds [kind] := by
    have group := Unmixed.ofKinds_group front [nested ["pointer_declarator"] .zeroOrOne, part] []
      (by rw [List.append_nil]; exact wraps.unmixed) (by rw [List.append_nil]; exact sorted)
    simpa [wraps.kinds] using group
  constructor
  · have silent : (front.flatMap fun part => node.ofKinds part.head.kinds).flatMap Cursor.leaves = [] := by
      apply flatMap_leaves_of_silent
      intro child member
      obtain ⟨other, isOther, ofOther⟩ := List.mem_flatMap.mp member
      exact wraps.silent other isOther _ (Cursor.mem_ofKinds.mp ofOther).2
    rw [Cursor.leaves_of_children (by rw [isPointer]; decide) (by rw [isPointer]; decide), sorted, swapped,
      grouped, List.flatMap_append, List.flatMap_append, silent]
    simp [wraps.kinds]
  · intro inner member
    have inside := (Cursor.mem_ofKinds.mp member).1
    refine ⟨fun isTarget => ⟨_, (parts part (by simp)).2 inner ?_⟩, fun isInner => ⟨_, _,
      (parts (nested ["pointer_declarator"] .zeroOrOne) (by simp)).2 inner ?_, ?_⟩⟩
    · rw [wraps.kinds]
      exact Cursor.mem_ofKinds.mpr ⟨inside, by simp [isTarget]⟩
    · exact Cursor.mem_ofKinds.mpr ⟨inside, by simp [isInner]⟩
    · exact children

/-- From declarators, what is captured is captured from the nodes that they lead to. -/
theorem ThroughPointers.flatMap_leaves {nodes targets : List Cursor}
    (through : ThroughPointers kind nodes targets) (wraps : WrapsKind front part kind)
    (found : ∀ node ∈ nodes, FoundThrough alphabet front part kind node) :
    nodes.flatMap Cursor.leaves = targets.flatMap Cursor.leaves ∧
      ∀ target ∈ targets, ∃ enclosing, part.Finds alphabet enclosing target := by
  induction through with
  | nil => simp
  | target isTarget _ ih =>
      rw [List.forall_mem_cons] at found
      obtain ⟨leaves, finds⟩ := ih found.2
      rw [List.flatMap_cons, List.flatMap_cons, leaves, List.forall_mem_cons]
      exact ⟨rfl, found.1.target isTarget, finds⟩
  | pointer isPointer _ _ inner ih =>
      rw [List.forall_mem_cons] at found
      obtain ⟨leaves, below⟩ := found.1.leaves_of_pointer wraps isPointer
      obtain ⟨innerLeaves, innerFinds⟩ := inner below
      obtain ⟨restLeaves, restFinds⟩ := ih found.2
      rw [List.flatMap_cons, List.flatMap_append, leaves, innerLeaves, restLeaves, List.forall_mem_append]
      exact ⟨rfl, innerFinds, restFinds⟩

/-- A node of the kind, or pointers, are found through pointers. -/
theorem foundThrough_of_part {other : Pattern} {quantifier : Quantifier} {node : Cursor}
    (wraps : WrapsKind front part kind) (noPointer : kind ≠ "pointer_declarator")
    (isPart : other ∈ [part, branch ["pointer_declarator"] quantifier
      (front ++ [nested ["pointer_declarator"] .zeroOrOne, part])])
    (finds : other.Finds alphabet enclosing node) : FoundThrough alphabet front part kind node := by
  rw [List.mem_pair] at isPart
  rcases isPart with rfl | rfl
  · have isTarget : node.kind = kind := finds.kind_eq wraps.kinds
    exact ⟨fun _ => ⟨_, finds⟩, fun isPointer => absurd (isTarget.symm.trans isPointer) noPointer⟩
  · have isPointer : node.kind = "pointer_declarator" := finds.kind_eq rfl
    exact ⟨fun isTarget => absurd (isTarget.symm.trans isPointer) noPointer,
      fun _ => ⟨_, _, finds, rfl⟩⟩

end

/-! ### Types and what they are the types of -/

/-- From a type specifier, the node that spells the type is captured, which has no pointers. -/
theorem leaves_of_type {parent specifier : Cursor} {part : Pattern} (isPart : part ∈ typeParts)
    (finds : part.Finds alphabet enclosing specifier) (inside : specifier ∈ parent.named)
    (plain : parent.kind ∉ ["function_declarator", "array_declarator", "pointer_declarator"]) :
    specifier.leaves = [specifier.spellingNode] ∧ specifier.spellingNode.kind ∈ Capture.typeNames ∧
      specifier.spellingNode.pointerDepth = 0 := by
  have captured : ∀ kind ∈ Capture.typeNames, Capture.isCaptured kind = true := by decide
  obtain ⟨isType, own | ⟨kind, children⟩⟩ := spellingNode_of_type isPart finds
  · rw [own] at isType ⊢
    exact ⟨Cursor.leaves_of_captured (captured _ isType), isType,
      Cursor.pointerDepth_eq_zero inside plain⟩
  · have tagged : ∀ kind ∈ ["struct_specifier", "union_specifier", "enum_specifier"],
        Capture.isCaptured kind = false ∧ kind ∉ Capture.silentKinds ∧
        kind ∉ ["function_declarator", "array_declarator", "pointer_declarator"] := by decide
    obtain ⟨uncaptured, loud, plainHere⟩ := tagged _ kind
    have below : specifier.spellingNode ∈ specifier.named := by
      rw [children]
      exact List.mem_singleton_self _
    refine ⟨?_, isType, Cursor.pointerDepth_eq_zero below plainHere⟩
    rw [Cursor.leaves_of_children uncaptured loud, children, List.flatMap_singleton,
      Cursor.leaves_of_captured (captured _ isType)]

/-- What patterns of a declaration say of its nodes: silent ones, the ways to spell a type, silent ones
again, and declarators. -/
structure DeclarationParts (front middle declarators : List Pattern) : Prop where
  named : ∀ part ∈ front, part.head.kinds ≠ []
  fixed : ∀ part ∈ front, part.head.quantifier ≠ .alternative
  unmixed : Unmixed (typeParts ++ (middle ++ declarators))
  silent : ∀ part ∈ front ++ middle, ∀ kind ∈ part.head.kinds, kind ∈ Capture.silentKinds
  loud : ∀ part ∈ typeParts ++ declarators, ∀ kind ∈ part.head.kinds, kind ∉ Capture.silentKinds

section

variable {front middle declarators : List Pattern} {pattern : Pattern} {node : Cursor}

/-- The children of a declaration in order: silent ones, the ways to spell its types, silent ones again, and
its declarators. -/
theorem DeclarationParts.inOrder (parts : DeclarationParts front middle declarators)
    (finds : pattern.Finds alphabet enclosing node)
    (shape : (pattern.shape enclosing).children = front ++ (typeParts ++ (middle ++ declarators))) :
    ∃ first second, node.named = first ++ (node.ofKinds typeKinds
        ++ (second ++ node.ofKinds (declarators.flatMap (·.head.kinds)))) ∧
      ∀ child ∈ first ++ second, child.kind ∈ Capture.silentKinds := by
  obtain ⟨⟨shares, cut⟩, _⟩ := finds.parts (by rw [shape]; simp [typeParts])
  have fixed : ∀ part ∈ front ++ (typeParts ++ (middle ++ declarators)),
      part.head.quantifier ≠ .alternative :=
    List.forall_mem_append.mpr ⟨parts.fixed, parts.unmixed.fixed⟩
  rw [shape, childItems_of_fixed fixed] at cut
  obtain ⟨first, later, inOrder, areFirst, sorted⟩ := cut.sorted_after parts.named parts.unmixed
  have firstSilent : ∀ child ∈ first, child.kind ∈ Capture.silentKinds := by
    intro child member
    obtain ⟨part, isPart, kind⟩ := areFirst child member
    exact parts.silent part (List.mem_append_left _ isPart) _ kind
  -- Among the silent nodes in front is none that a type or a declarator may be.
  have ofLater : ∀ group ⊆ typeParts ++ declarators, node.ofKinds (group.flatMap (·.head.kinds))
      = later.filter fun child => (group.flatMap (·.head.kinds)).contains child.kind := by
    intro group within
    rw [Cursor.ofKinds, inOrder, List.filter_append, List.filter_eq_nil_iff.mpr, List.nil_append]
    intro child member isKind
    obtain ⟨part, isPart, kind⟩ := List.mem_flatMap.mp (List.contains_iff_mem.mp isKind)
    exact parts.loud part (within isPart) _ kind (firstSilent child member)
  have types : node.ofKinds typeKinds = typeParts.flatMap fun part =>
      later.filter fun child => part.head.kinds.contains child.kind := by
    rw [← parts.unmixed.filter_group [] typeParts (middle ++ declarators) sorted]
    exact ofLater typeParts (List.subset_append_left _ _)
  have declared : node.ofKinds (declarators.flatMap (·.head.kinds)) = declarators.flatMap fun part =>
      later.filter fun child => part.head.kinds.contains child.kind := by
    have whole : typeParts ++ (middle ++ declarators) = typeParts ++ middle ++ declarators ++ [] := by
      rw [List.append_nil, List.append_assoc]
    have unmixed := parts.unmixed
    rw [whole] at unmixed sorted
    rw [← Unmixed.filter_group (typeParts ++ middle) declarators [] unmixed sorted]
    exact ofLater declarators (List.subset_append_right _ _)
  refine ⟨first, middle.flatMap fun part => later.filter fun child => part.head.kinds.contains child.kind,
    ?_, List.forall_mem_append.mpr ⟨firstSilent, fun child member => ?_⟩⟩
  · rw [types, declared, ← List.flatMap_append, ← List.flatMap_append, ← sorted, inOrder]
  · obtain ⟨part, isPart, ofPart⟩ := List.mem_flatMap.mp member
    exact parts.silent part (List.mem_append_right _ isPart) _
      (List.contains_iff_mem.mp (List.mem_filter.mp ofPart).2)

/-- A child of a declaration is found by the part that names its kind, unless the kind is silent. -/
theorem DeclarationParts.finds_child {child : Cursor} {part : Pattern}
    (parts : DeclarationParts front middle declarators) (finds : pattern.Finds alphabet enclosing node)
    (shape : (pattern.shape enclosing).children = front ++ (typeParts ++ (middle ++ declarators)))
    (isChild : child ∈ node.named) (isPart : part ∈ typeParts ++ declarators)
    (kind : child.kind ∈ part.head.kinds) :
    part.Finds alphabet (some (pattern.shape enclosing)) child := by
  obtain ⟨_, found⟩ := finds.parts (by rw [shape]; simp [typeParts])
  rw [shape] at found
  obtain ⟨other, isOther, otherFinds⟩ := found child isChild
  have inLater : part ∈ typeParts ++ (middle ++ declarators) := by
    rcases List.mem_append.mp isPart with isType | isDeclarator
    · exact List.mem_append_left _ isType
    · exact List.mem_append_right _ (List.mem_append_right _ isDeclarator)
  rcases List.mem_append.mp isOther with isFront | isLater
  · have silent := parts.silent other (List.mem_append_left _ isFront) _
      (otherFinds.kind_mem (parts.named other isFront))
    exact absurd silent (parts.loud part isPart _ kind)
  · have accepted := otherFinds.kind_mem (parts.unmixed.named other isLater)
    rwa [parts.unmixed.unique inLater isLater kind accepted]

/-- From a declaration, what spells its types is captured, and then what is captured from its
declarators. -/
theorem leaves_of_declaration (parts : DeclarationParts front middle declarators)
    (finds : pattern.Finds alphabet enclosing node)
    (shape : (pattern.shape enclosing).children = front ++ (typeParts ++ (middle ++ declarators)))
    (loud : Capture.isCaptured node.kind = false ∧ node.kind ∉ Capture.silentKinds)
    (plain : node.kind ∉ ["function_declarator", "array_declarator", "pointer_declarator"]) :
    node.leaves = (node.ofKinds typeKinds).map Cursor.spellingNode
        ++ (node.ofKinds (declarators.flatMap (·.head.kinds))).flatMap Cursor.leaves ∧
      (∀ specifier ∈ node.ofKinds typeKinds, specifier.spellingNode.kind ∈ Capture.typeNames ∧
        specifier.spellingNode.pointerDepth = 0) ∧
      ∀ declarator ∈ node.ofKinds (declarators.flatMap (·.head.kinds)), ∃ part ∈ declarators,
        part.Finds alphabet (some (pattern.shape enclosing)) declarator := by
  have specifiers : ∀ specifier ∈ node.ofKinds typeKinds,
      specifier.leaves = [specifier.spellingNode] ∧ specifier.spellingNode.kind ∈ Capture.typeNames ∧
        specifier.spellingNode.pointerDepth = 0 := by
    intro specifier member
    obtain ⟨inside, kind⟩ := Cursor.mem_ofKinds.mp member
    obtain ⟨part, isPart, named⟩ := List.mem_flatMap.mp
      (show specifier.kind ∈ typeParts.flatMap (·.head.kinds) from kind)
    have found := parts.finds_child finds shape inside (List.mem_append_left _ isPart) named
    exact leaves_of_type isPart found inside plain
  refine ⟨?_, fun specifier member => (specifiers specifier member).2, fun declarator member => ?_⟩
  · obtain ⟨first, second, inOrder, silent⟩ := parts.inOrder finds shape
    rw [List.forall_mem_append] at silent
    have typeLeaves : (node.ofKinds typeKinds).flatMap Cursor.leaves
        = (node.ofKinds typeKinds).map Cursor.spellingNode := by
      rw [List.flatMap_congr fun specifier member => (specifiers specifier member).1, List.map_eq_flatMap]
    calc node.leaves = node.named.flatMap Cursor.leaves := Cursor.leaves_of_children loud.1 loud.2
      _ = _ := by
        rw [inOrder, List.flatMap_append, List.flatMap_append, List.flatMap_append, typeLeaves,
          flatMap_leaves_of_silent silent.1, flatMap_leaves_of_silent silent.2]
        rfl
  · obtain ⟨inside, kind⟩ := Cursor.mem_ofKinds.mp member
    obtain ⟨part, isPart, named⟩ := List.mem_flatMap.mp kind
    exact ⟨part, isPart, parts.finds_child finds shape inside (List.mem_append_right _ isPart) named⟩

end

/-! ### Functions and their parameters -/

/-- The nodes of the parameters of a function declarator. -/
def Cursor.parameterNodes (declarator : Cursor) : List Cursor :=
  (declarator.ofKinds ["parameter_list"]).flatMap named

/-- From a parameter, what spells its types is captured, and then what its declarators lead to. -/
theorem leaves_of_parameter {parameter : Cursor}
    (finds : parameterPattern.Finds alphabet enclosing parameter) :
    parameter.kind = "parameter_declaration" ∧
      parameter.leaves = (parameter.ofKinds typeKinds).map Cursor.spellingNode
        ++ (parameter.ofKinds ["identifier", "pointer_declarator"]).flatMap Cursor.leaves ∧
      (∀ specifier ∈ parameter.ofKinds typeKinds, specifier.spellingNode.kind ∈ Capture.typeNames ∧
        specifier.spellingNode.pointerDepth = 0) ∧
      ∀ declarator ∈ parameter.ofKinds ["identifier", "pointer_declarator"],
        FoundThrough alphabet [leaf ["type_qualifier"] .zeroOrMore] (leaf ["identifier"] .zeroOrOne)
          "identifier" declarator := by
  have kind : parameter.kind = "parameter_declaration" := finds.kind_eq rfl
  have parts : DeclarationParts [leaf ["type_qualifier"] .zeroOrMore] [leaf ["type_qualifier"] .zeroOrMore]
      [leaf ["identifier"] .zeroOrOne, pointersTo "identifier"] :=
    ⟨by decide, by decide, by decide, by decide, by decide⟩
  obtain ⟨leaves, types, found⟩ := leaves_of_declaration parts finds rfl (by rw [kind]; decide)
    (by rw [kind]; decide)
  refine ⟨kind, leaves, types, fun declarator member => ?_⟩
  obtain ⟨part, isPart, partFinds⟩ := found declarator member
  exact foundThrough_of_part wrapsKind_identifier (by decide) isPart partFinds

/-- From a function declarator, its name is captured, and then what is captured from its parameters. -/
theorem leaves_of_functionDeclarator {declarator : Cursor}
    (finds : functionDeclarator.Finds alphabet enclosing declarator) :
    ∃ name, declarator.ofKinds ["identifier"] = [name] ∧
      declarator.leaves = name :: declarator.parameterNodes.flatMap Cursor.leaves ∧
      ∀ parameter ∈ declarator.parameterNodes, ∃ around,
        parameterPattern.Finds alphabet around parameter := by
  obtain ⟨list, isList, leaves, single, entries⟩ :=
    leaves_of_listing finds (by decide) (by simp) (by decide) (by decide)
  obtain ⟨name, isName⟩ : ∃ name, declarator.ofKinds ["identifier"] = [name] :=
    List.length_eq_one_iff.mp single
  have body : declarator.parameterNodes = list.named := by
    simp [Cursor.parameterNodes, isList]
  rw [body]
  exact ⟨name, isName, by rw [leaves, isName, List.singleton_append], entries⟩

/-- From a declaration of functions, what spells its types is captured, and then what is captured from the
function declarators that its declarators lead to. -/
theorem leaves_of_function {node : Cursor} {declarators : List Cursor}
    (finds : functionPattern.Finds alphabet enclosing node)
    (through : ThroughPointers "function_declarator"
      (node.ofKinds ["function_declarator", "pointer_declarator"]) declarators) :
    node.leaves = (node.ofKinds typeKinds).map Cursor.spellingNode ++ declarators.flatMap Cursor.leaves ∧
      (∀ specifier ∈ node.ofKinds typeKinds, specifier.spellingNode.kind ∈ Capture.typeNames ∧
        specifier.spellingNode.pointerDepth = 0) ∧
      ∀ declarator ∈ declarators, ∃ around, functionDeclarator.Finds alphabet around declarator := by
  have kind : node.kind = "declaration" := finds.kind_eq rfl
  have parts : DeclarationParts
      [leaf ["storage_class_specifier"] .zeroOrOne, leaf ["type_qualifier"] .zeroOrOne] []
      [functionDeclarator, branch ["pointer_declarator"] .zeroOrOne
        [nested ["pointer_declarator"] .zeroOrOne, functionDeclarator]] :=
    ⟨by decide, by decide, by decide, by decide, by decide⟩
  obtain ⟨leaves, types, found⟩ := leaves_of_declaration parts finds rfl (by rw [kind]; decide)
    (by rw [kind]; decide)
  obtain ⟨inside, targets⟩ := through.flatMap_leaves wrapsKind_function fun declarator member => by
    obtain ⟨part, isPart, partFinds⟩ := found declarator member
    exact foundThrough_of_part wrapsKind_function (by decide) isPart partFinds
  exact ⟨by rw [leaves, ← inside]; rfl, types, targets⟩

/-- Before parameters that have a type, there are no pointers of a name. -/
theorem pointersOf_parameters {parameters : List Cursor}
    (finds : ∀ parameter ∈ parameters, ∃ around, parameterPattern.Finds alphabet around parameter)
    (typed : ∀ parameter ∈ parameters, parameter.ofKinds typeKinds ≠ []) :
    pointersOf (parameters.flatMap Cursor.leaves) = "" := by
  cases parameters with
  | nil => rfl
  | cons parameter rest =>
      obtain ⟨_, isFound⟩ := finds parameter List.mem_cons_self
      obtain ⟨_, leaves, types, _⟩ := leaves_of_parameter isFound
      obtain ⟨specifier, others, inOrder⟩ :=
        List.exists_cons_of_ne_nil (typed parameter List.mem_cons_self)
      have noPointers := (types specifier (by simp [inOrder])).2
      rw [List.flatMap_cons, leaves, inOrder]
      simp [pointersOf, noPointers, Capture.stars]

end

/-! ### What a function takes from its declaration -/

/-- Without two captures, or under a name that is missing or reserved, no function is declared; and otherwise
one with the type and the parameters that the captures spell. -/
theorem returns_declareFunction_iff {before after : Registry} {value : Unit} {type spelling : Capture}
    {rest : List Capture} :
    (declareFunction (type :: spelling :: rest)).Returns before value after ↔
      (bindingName spelling.text = "" ∨
        before.isDeclared .functions (bindingName spelling.text) = true) ∧ after = before ∨
      bindingName spelling.text ≠ "" ∧
        before.isDeclared .functions (bindingName spelling.text) = false ∧
        ∃ returnType parameters between, typeExpr type.text = .ok returnType ∧
          (readParameters [] rest).Returns
            ((before.reserve .functions (bindingName spelling.text)).referAll
              (returnType.bind TypeExpr.reference?).toList) parameters between ∧
          after = between.emit .functions (.function ⟨bindingName spelling.text, spelling.text,
            before.currentHeader, returnType, parameters⟩) := by
  unfold declareFunction
  dsimp only
  generalize bindingName spelling.text = name
  refine returns_declaring_iff.trans (or_congr_right (and_congr_right fun _ =>
    and_congr_right fun _ => ?_))
  have sameHeader : ∀ {between : Registry} {names : List String} {parameters : List Parameter},
      (readParameters [] rest).Returns ((before.reserve .functions name).referAll names) parameters
        between → between.currentHeader = before.currentHeader := by
    intro between names parameters read
    obtain ⟨_, _, rfl⟩ := addsNoting_readParameters read
    rw [currentHeader_referAll, currentHeader_referAll]
    rfl
  constructor
  · intro returns
    obtain ⟨returnType, _, resolved, returns⟩ := returns_bind_iff.mp returns
    obtain ⟨typed, rfl⟩ := returns_resolve_iff.mp resolved
    obtain ⟨parameters, between, read, returns⟩ := returns_bind_iff.mp returns
    obtain ⟨_, _, got, returns⟩ := returns_bind_iff.mp returns
    obtain ⟨rfl, rfl⟩ := returns_get_iff.mp got
    refine ⟨returnType, parameters, _, typed, read, ?_⟩
    rw [returns_emit_iff.mp returns, sameHeader read]
  · rintro ⟨returnType, parameters, between, typed, read, rfl⟩
    refine (returns_resolve_iff.mpr ⟨typed, rfl⟩).bind (read.bind
      ((returns_get_iff.mpr ⟨rfl, rfl⟩).bind (returns_emit_iff.mpr ?_)))
    rw [sameHeader read]

/-- What a function takes from a specifier of a type, the name of a function declarator, and the nodes that
are captured after the name: it is called by the name, it returns the type with the pointers around the name,
and its parameters are read from the nodes after the name. -/
structure Function.TakenFrom (bytes : List UInt8) (specifier nameNode : Cursor) (leaves : List Cursor)
    (function : Function) : Prop where
  spelling : function.spelling = nameNode.textIn bytes ++ pointersOf leaves
  name : function.name = bindingName function.spelling
  returnType : typeExpr (specifier.spellingNode.textIn bytes ++ Capture.stars nameNode.pointerDepth)
    = .ok function.returnType
  parameters : ∃ before after, (readParameters [] (spelled bytes leaves)).Returns before
    function.parameters after

namespace Rules

/-- A claimed declaration of functions with one type specifier declares one function at most. It is
taken from the first function declarator; but its parameters are read from what is captured of all the
others, too. -/
theorem emitted_of_function {node specifier : Cursor} {declarators : List Cursor}
    {captures : Option (List Capture)} {before after : Registry} (claimed : Claims node .declareFunction)
    (typed : node.ofKinds typeKinds = [specifier])
    (through : ThroughPointers "function_declarator"
      (node.ofKinds ["function_declarator", "pointer_declarator"]) declarators)
    (returns : (table.dispatch alphabet bytes Generation.runDefault node).Returns before captures after) :
    after.emitted = before.emitted ∨
      ∃ first others name function,
        declarators = first :: others ∧ first.ofKinds ["identifier"] = [name] ∧
        function.TakenFrom bytes specifier name
          (first.parameterNodes.flatMap Cursor.leaves ++ others.flatMap Cursor.leaves) ∧
        after.emitted = before.emitted.modify .functions (· ++ [.function function]) := by
  obtain ⟨finds, ran⟩ := returns_run_of_dispatch claimed returns
  have isFunction : functionPattern.Finds alphabet none node := finds functionPattern (by decide)
  obtain ⟨leaves, types, targets⟩ := leaves_of_function isFunction through
  rw [typed, List.map_singleton, List.singleton_append] at leaves
  change (declareFunction (node.capturesAfter bytes []).reverse).Returns before () after at ran
  rw [Cursor.captures_eq_spelled (noField_of_plain (by simp) finds), leaves] at ran
  cases declarators with
  | nil =>
      rw [List.flatMap_nil] at ran
      exact Or.inl (congrArg Registry.emitted (returns_pure_iff.mp ran).2)
  | cons first others =>
      obtain ⟨_, found⟩ := targets first List.mem_cons_self
      obtain ⟨name, isName, firstLeaves, _⟩ := leaves_of_functionDeclarator found
      have nameKind : name.kind = "identifier" := Cursor.kind_of_only isName
      rw [List.flatMap_cons, firstLeaves, List.cons_append, spelled, spelled] at ran
      rcases returns_declareFunction_iff.mp ran with ⟨_, rfl⟩ |
        ⟨_, _, returnType, parameters, between, isType, read, rfl⟩
      · exact Or.inl rfl
      · have pointers : pointersOf (name :: (first.parameterNodes.flatMap Cursor.leaves
            ++ others.flatMap Cursor.leaves)) = Capture.stars name.pointerDepth := by
          simp [pointersOf, nameKind, Capture.declaratorNames]
        rw [pointers] at isType
        let later := first.parameterNodes.flatMap Cursor.leaves ++ others.flatMap Cursor.leaves
        let spelling := name.textIn bytes ++ pointersOf later
        have taken : Function.TakenFrom bytes specifier name later
            ⟨bindingName spelling, spelling, before.currentHeader, returnType, parameters⟩ :=
          { spelling := rfl, name := rfl, returnType := isType, parameters := ⟨_, _, read⟩ }
        refine Or.inr ⟨first, others, name, _, rfl, isName, taken, ?_⟩
        obtain ⟨_, _, rfl⟩ := addsNoting_readParameters read
        rw [Registry.referAll_frame, Registry.referAll_frame]
        rfl

/-- Parameters do not cross declarators: if a claimed declaration of functions has one type specifier and
leads to one function declarator, it declares one function at most, whose name, pointers and parameters are
all taken from this declarator; and the name is just as it is spelled, if the parameters have types. -/
theorem dispatch_takes_from_declarator {node specifier declarator : Cursor}
    {captures : Option (List Capture)} {before after : Registry} (claimed : Claims node .declareFunction)
    (typed : node.ofKinds typeKinds = [specifier])
    (through : ThroughPointers "function_declarator"
      (node.ofKinds ["function_declarator", "pointer_declarator"]) [declarator])
    (returns : (table.dispatch alphabet bytes Generation.runDefault node).Returns before captures after) :
    ∃ name, declarator.ofKinds ["identifier"] = [name] ∧
      (after.emitted = before.emitted ∨ ∃ function : Function,
        function.TakenFrom bytes specifier name (declarator.parameterNodes.flatMap Cursor.leaves) ∧
        after.emitted = before.emitted.modify .functions (· ++ [.function function])) ∧
      ((∀ parameter ∈ declarator.parameterNodes, parameter.ofKinds typeKinds ≠ []) →
        pointersOf (declarator.parameterNodes.flatMap Cursor.leaves) = "") := by
  have finds : functionPattern.Finds alphabet none node := finds_of_claims claimed (by decide)
  obtain ⟨_, _, targets⟩ := leaves_of_function finds through
  obtain ⟨_, found⟩ := targets declarator List.mem_cons_self
  obtain ⟨name, isName, _, parameters⟩ := leaves_of_functionDeclarator found
  refine ⟨name, isName, ?_, pointersOf_parameters parameters⟩
  rcases emitted_of_function claimed typed through returns with same |
    ⟨first, others, other, function, isFirst, isOther, taken, emitted⟩
  · exact Or.inl same
  · obtain ⟨rfl, rfl⟩ := List.cons.inj isFirst
    obtain rfl : name = other := List.singleton_inj.mp (isName.symm.trans isOther)
    rw [List.flatMap_nil, List.append_nil] at taken
    exact Or.inr ⟨function, taken, emitted⟩

/-! ### Declarations with one declarator and with two -/

/-- The declaration `struct S **make(const char *name, int, unsigned long count, int _);`. -/
def oneDeclarator : Document where
  bytes := "struct S **make(const char *name, int, unsigned long count, int _);".toUTF8.toList
  tree := .node ⟨"declaration", 0, 67, none⟩ [
    .node ⟨"struct_specifier", 0, 8, some "type"⟩ [
      .node ⟨"type_identifier", 7, 8, some "name"⟩ []],
    .node ⟨"pointer_declarator", 9, 66, some "declarator"⟩ [
      .node ⟨"pointer_declarator", 10, 66, some "declarator"⟩ [
        .node ⟨"function_declarator", 11, 66, some "declarator"⟩ [
          .node ⟨"identifier", 11, 15, some "declarator"⟩ [],
          .node ⟨"parameter_list", 15, 66, some "parameters"⟩ [
            .node ⟨"parameter_declaration", 16, 32, none⟩ [
              .node ⟨"type_qualifier", 16, 21, none⟩ [],
              .node ⟨"primitive_type", 22, 26, some "type"⟩ [],
              .node ⟨"pointer_declarator", 27, 32, some "declarator"⟩ [
                .node ⟨"identifier", 28, 32, some "declarator"⟩ []]],
            .node ⟨"parameter_declaration", 34, 37, none⟩ [
              .node ⟨"primitive_type", 34, 37, some "type"⟩ []],
            .node ⟨"parameter_declaration", 39, 58, none⟩ [
              .node ⟨"sized_type_specifier", 39, 52, some "type"⟩ [],
              .node ⟨"identifier", 53, 58, some "declarator"⟩ []],
            .node ⟨"parameter_declaration", 60, 65, none⟩ [
              .node ⟨"primitive_type", 60, 63, some "type"⟩ [],
              .node ⟨"identifier", 64, 65, some "declarator"⟩ []]]]]]]
  hasError := false

/-- The function that it declares. -/
def makeFunction : Function :=
  ⟨"make", "make", "", some (.pointer (.pointer (.named "S"))),
    [⟨"name", .named "ctypes.c_char_p"⟩, ⟨"arg1", .named "ctypes.c_int"⟩,
      ⟨"count", .named "ctypes.c_ulong"⟩, ⟨"arg3", .named "ctypes.c_int"⟩]⟩

/-- The registry after it. -/
def afterOneDeclarator : Registry :=
  { Registry.empty with
    declared := ⟨[], [], [], ["make"]⟩
    emitted := ⟨[], [], [], [.function makeFunction]⟩
    referenced := ["S"] }

/-- The declarator of the declaration with one. -/
def makeDeclarator : Cursor :=
  let node := Cursor.root oneDeclarator.tree
  let outer := (node.ofKinds ["pointer_declarator"]).headD node
  let inner := (outer.ofKinds ["pointer_declarator"]).headD outer
  (inner.ofKinds ["function_declarator"]).headD inner

theorem pointersAround_makeDeclarator :
    ∃ declarator, (Cursor.root oneDeclarator.tree).ofKinds ["function_declarator", "pointer_declarator"]
        = [declarator] ∧
      PointersAround "function_declarator" declarator 2 makeDeclarator :=
  ⟨_, rfl, .pointer rfl rfl (.pointer rfl rfl (.target rfl))⟩

theorem returns_oneDeclarator :
    (table.dispatch alphabet oneDeclarator.bytes Generation.runDefault (.root oneDeclarator.tree)).Returns
      .empty (some ((Cursor.root oneDeclarator.tree).capturesAfter oneDeclarator.bytes []).reverse)
      afterOneDeclarator := by
  rw [table_eq, alphabet_eq]
  decide +kernel

/-- The function under two pointers is taken from its one declarator. -/
theorem dispatch_takes_from_declarator_make :
    let node := Cursor.root oneDeclarator.tree
    Claims node .declareFunction ∧
      (∃ specifier, node.ofKinds typeKinds = [specifier]) ∧
      ThroughPointers "function_declarator" (node.ofKinds ["function_declarator", "pointer_declarator"])
        [makeDeclarator] ∧
      ∃ specifier name function, makeDeclarator.ofKinds ["identifier"] = [name] ∧
        Function.TakenFrom oneDeclarator.bytes specifier name
          (makeDeclarator.parameterNodes.flatMap Cursor.leaves) function ∧
        pointersOf (makeDeclarator.parameterNodes.flatMap Cursor.leaves) = "" ∧
        afterOneDeclarator.emitted.functions = [.function function] := by
  intro node
  have claimed : Claims node .declareFunction := by decide +kernel
  have through : ThroughPointers "function_declarator"
      (node.ofKinds ["function_declarator", "pointer_declarator"]) [makeDeclarator] := by
    obtain ⟨declarator, single, around⟩ := pointersAround_makeDeclarator
    rw [single]
    exact around.through
  refine ⟨claimed, ⟨_, rfl⟩, through, ?_⟩
  obtain ⟨name, isName, emitted, plain⟩ :=
    dispatch_takes_from_declarator claimed rfl through returns_oneDeclarator
  rcases emitted with same | ⟨function, taken, emitted⟩
  · exact absurd same (by decide)
  · refine ⟨_, name, function, isName, taken, plain (by decide +kernel), ?_⟩
    rw [emitted]
    rfl

/-- The declaration `int f(int a), *g(char b);`. -/
def crossedDeclarators : Document where
  bytes := "int f(int a), *g(char b);".toUTF8.toList
  tree := .node ⟨"declaration", 0, 25, none⟩ [
    .node ⟨"primitive_type", 0, 3, some "type"⟩ [],
    .node ⟨"function_declarator", 4, 12, some "declarator"⟩ [
      .node ⟨"identifier", 4, 5, some "declarator"⟩ [],
      .node ⟨"parameter_list", 5, 12, some "parameters"⟩ [
        .node ⟨"parameter_declaration", 6, 11, none⟩ [
          .node ⟨"primitive_type", 6, 9, some "type"⟩ [],
          .node ⟨"identifier", 10, 11, some "declarator"⟩ []]]],
    .node ⟨"pointer_declarator", 14, 24, some "declarator"⟩ [
      .node ⟨"function_declarator", 15, 24, some "declarator"⟩ [
        .node ⟨"identifier", 15, 16, some "declarator"⟩ [],
        .node ⟨"parameter_list", 16, 24, some "parameters"⟩ [
          .node ⟨"parameter_declaration", 17, 23, none⟩ [
            .node ⟨"primitive_type", 17, 21, some "type"⟩ [],
            .node ⟨"identifier", 22, 23, some "declarator"⟩ []]]]]]
  hasError := false

/-- The function that it declares. -/
def crossedFunction : Function :=
  ⟨"f", "f", "", some (.named "ctypes.c_int"),
    [⟨"a *", .named "ctypes.c_int"⟩, ⟨"arg1", .named "g"⟩, ⟨"b", .named "ctypes.c_char"⟩]⟩

/-- The registry after it. -/
def afterCrossedDeclarators : Registry :=
  { Registry.empty with
    declared := ⟨[], [], [], ["f"]⟩
    emitted := ⟨[], [], [], [.function crossedFunction]⟩
    referenced := ["g"] }

/-- Its first declarator. -/
def crossedFirst : Cursor :=
  let node := Cursor.root crossedDeclarators.tree
  (node.ofKinds ["function_declarator"]).headD node

/-- Its second declarator, below the pointer. -/
def crossedSecond : Cursor :=
  let node := Cursor.root crossedDeclarators.tree
  ((node.ofKinds ["pointer_declarator"]).flatMap (·.ofKinds ["function_declarator"])).headD node

theorem through_crossedDeclarators : ThroughPointers "function_declarator"
    ((Cursor.root crossedDeclarators.tree).ofKinds ["function_declarator", "pointer_declarator"])
    [crossedFirst, crossedSecond] := by
  have second : ∃ pointer, PointersAround "function_declarator" pointer 1 crossedSecond ∧
      (Cursor.root crossedDeclarators.tree).ofKinds ["function_declarator", "pointer_declarator"]
        = [crossedFirst, pointer] := ⟨_, .pointer rfl rfl (.target rfl), rfl⟩
  obtain ⟨pointer, around, inOrder⟩ := second
  rw [inOrder]
  exact .target rfl around.through

/-- Of two declarators, the function that is declared is taken from neither alone: besides its own parameter,
it has one of the other declarator's name and one of the other's parameter. -/
theorem not_taken_crossedDeclarators :
    let node := Cursor.root crossedDeclarators.tree
    Claims node .declareFunction ∧
      ThroughPointers "function_declarator"
        (node.ofKinds ["function_declarator", "pointer_declarator"]) [crossedFirst, crossedSecond] ∧
      ∃ specifier, node.ofKinds typeKinds = [specifier] ∧
        (table.dispatch alphabet crossedDeclarators.bytes Generation.runDefault node).Returns .empty
          (some (node.capturesAfter crossedDeclarators.bytes []).reverse) afterCrossedDeclarators ∧
        ∀ declarator ∈ [crossedFirst, crossedSecond], ∀ name ∈ declarator.ofKinds ["identifier"],
          ¬ crossedFunction.TakenFrom crossedDeclarators.bytes specifier name
            (declarator.parameterNodes.flatMap Cursor.leaves) := by
  intro node
  refine ⟨by decide +kernel, through_crossedDeclarators, _, rfl, ?_, ?_⟩
  · rw [table_eq, alphabet_eq]
    decide +kernel
  · rw [List.forall_mem_cons, List.forall_mem_singleton]
    constructor
    · intro name _ taken
      obtain ⟨_, _, read⟩ := taken.parameters
      obtain ⟨_, fixed⟩ := fixed_readParameters []
        (spelled crossedDeclarators.bytes (crossedFirst.parameterNodes.flatMap Cursor.leaves))
      have own : (readParameters [] (spelled crossedDeclarators.bytes
          (crossedFirst.parameterNodes.flatMap Cursor.leaves))).Returns .empty
          [⟨"a", .named "ctypes.c_int"⟩] .empty := by decide +kernel
      exact absurd ((fixed _ _ _ read).trans (fixed _ _ _ own).symm) (by decide)
    · intro name isName taken
      have other : ∀ name ∈ crossedSecond.ofKinds ["identifier"], "f" ≠
          name.textIn crossedDeclarators.bytes
            ++ pointersOf (crossedSecond.parameterNodes.flatMap Cursor.leaves) := by decide +kernel
      exact other name isName taken.spelling

end Rules

end HeaderBindings
