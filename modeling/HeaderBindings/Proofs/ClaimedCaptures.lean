/-
Module: HeaderBindings.Proofs.ClaimedCaptures
Purpose: Which nodes are captured from a node that the default grammar claims, shape by shape.
Main exports: Rules.kind_of_mem_leaves, Rules.leaves_of_macro, Rules.leaves_of_definition,
  Rules.leaves_of_listing, Cursor.enumeratorNodes, Cursor.IsEnumerator, Rules.leaves_of_enumeration,
  Rules.captures_of_enumeration, Rules.captures_of_definedEnumeration
-/
import HeaderBindings.Proofs.CapturedLeaves
import HeaderBindings.Proofs.RecordFields

namespace HeaderBindings

variable {alphabet : Alphabet} {bytes : List UInt8} {enclosing : Option Pattern}

/-! ### Kinds of captured nodes -/

namespace Pattern

/-- What is captured from a node that a legible pattern finds is of a kind that the pattern names
somewhere. -/
theorem Place.kind_of_mem_leaves {top pattern : Pattern} {enclosing : Option Pattern}
    {cursor leaf : Cursor} (legible : top.Legible) (place : Place top enclosing pattern)
    (finds : pattern.Finds alphabet enclosing cursor) (member : leaf ∈ cursor.leaves) :
    ∃ part ∈ top.descendants, leaf.kind ∈ part.head.kinds := by
  obtain ⟨named, shaped⟩ := (place.shape legible).2
  have kind := finds.kind_mem named
  cases captured : Capture.isCaptured cursor.kind with
  | true =>
      rw [Cursor.leaves_of_captured captured, List.mem_singleton] at member
      subst member
      cases enclosing with
      | none =>
          obtain rfl : pattern = top := place
          exact ⟨pattern, mem_descendants_self pattern, kind⟩
      | some around => exact ⟨pattern, mem_descendants_of_child top place.1 place.2, kind⟩
  | false =>
      by_cases silent : cursor.kind ∈ Capture.silentKinds
      · rw [Cursor.leaves_of_silent silent] at member
        cases member
      · have agrees := (shaped _ kind).resolve_left (by simp [captured])
        have childless : (pattern.shape enclosing).children ≠ [] := fun empty =>
          silent (agrees.mpr empty)
        rw [Cursor.leaves_of_children captured silent] at member
        obtain ⟨child, isChild, inside⟩ := List.mem_flatMap.mp member
        obtain ⟨part, isPart, partFinds⟩ := (finds.parts childless).2 child isChild
        have lower := Cursor.height_lt_of_mem_named isChild
        exact kind_of_mem_leaves legible (place.child legible isPart) partFinds inside
termination_by cursor.focus.height

end Pattern

open Pattern

namespace Rules

/-- What is captured from a node that a shape of the default grammar finds is of a captured kind that the
shape names somewhere. -/
theorem kind_of_mem_leaves {pattern : Pattern} {action : Action} {node leaf : Cursor}
    (isShape : (pattern, action) ∈ shapeList) (finds : pattern.Finds alphabet none node)
    (member : leaf ∈ node.leaves) :
    leaf.kind ∈ (pattern.descendants.flatMap (·.head.kinds)).filter Capture.isCaptured := by
  have place : Place pattern none pattern := rfl
  obtain ⟨part, isPart, kind⟩ :=
    place.kind_of_mem_leaves (legible_of_mem_shapeList _ isShape) finds member
  exact List.mem_filter.mpr
    ⟨List.mem_flatMap.mpr ⟨part, isPart, kind⟩, (Cursor.reaches_of_mem_leaves member).2⟩

end Rules

/-! ### Nodes without pointers -/

theorem pointersOf_of_plain {leaves : List Cursor}
    (plain : ∀ leaf ∈ leaves, leaf.kind ∈ Capture.declaratorNames → leaf.pointerDepth = 0) :
    pointersOf leaves = "" := by
  cases leaves with
  | nil => rfl
  | cons leaf rest =>
      by_cases isName : leaf.kind ∈ Capture.declaratorNames
      · simp [pointersOf, isName, plain leaf List.mem_cons_self isName, Capture.stars]
      · simp [pointersOf, isName]

/-- Nodes without pointers spell their own texts. -/
theorem spelled_of_plain {leaves : List Cursor}
    (plain : ∀ leaf ∈ leaves, leaf.kind ∈ Capture.declaratorNames → leaf.pointerDepth = 0) :
    spelled bytes leaves = leaves.map (Cursor.leaf bytes) := by
  induction leaves with
  | nil => rfl
  | cons leaf rest ih =>
      rw [List.forall_mem_cons] at plain
      simp [spelled, ih plain.2, pointersOf_of_plain plain.2, Cursor.leaf]

namespace Rules

/-! ### Macros -/

/-- A macro has a name and a text. -/
theorem named_of_macro {node : Cursor} (finds : macroPattern.Finds alphabet enclosing node) :
    ∃ name text, node.named = [name, text] ∧ name.kind = "identifier" ∧ text.kind = "preproc_arg" := by
  have shape : (macroPattern.shape enclosing).children = macroPattern.children := rfl
  obtain ⟨sorted, parts⟩ := finds.siblings shape (by decide) (by decide)
  obtain ⟨name, isName⟩ : ∃ name, node.ofKinds ["identifier"] = [name] :=
    List.length_eq_one_iff.mp (parts (leaf ["identifier"] .one) (by decide)).1
  obtain ⟨text, isText⟩ : ∃ text, node.ofKinds ["preproc_arg"] = [text] :=
    List.length_eq_one_iff.mp (parts (leaf ["preproc_arg"] .one) (by decide)).1
  have inOrder : node.named = [name, text] := by
    simpa [macroPattern, isName, isText] using sorted
  exact ⟨name, text, inOrder, Cursor.kind_of_only isName, Cursor.kind_of_only isText⟩

theorem leaves_eq_named_of_macro {node : Cursor} (finds : macroPattern.Finds alphabet enclosing node) :
    node.leaves = node.named := by
  have isMacro : node.kind = "preproc_def" := finds.kind_eq rfl
  obtain ⟨name, text, inOrder, nameKind, textKind⟩ := named_of_macro finds
  have nameLeaves : name.leaves = [name] := Cursor.leaves_of_captured (by rw [nameKind]; decide)
  have textLeaves : text.leaves = [text] := Cursor.leaves_of_captured (by rw [textKind]; decide)
  rw [Cursor.leaves_of_children (by rw [isMacro]; decide) (by rw [isMacro]; decide), inOrder,
    List.flatMap_cons, List.flatMap_singleton, nameLeaves, textLeaves]
  rfl

/-- From a macro, its name and its text are captured. -/
theorem leaves_of_macro {node : Cursor} (finds : macroPattern.Finds alphabet enclosing node) :
    ∃ name text, node.leaves = [name, text] ∧ name.kind = "identifier" ∧
      text.kind = "preproc_arg" := by
  obtain ⟨name, text, inOrder, nameKind, textKind⟩ := named_of_macro finds
  have wholly : node.leaves = node.named := leaves_eq_named_of_macro finds
  exact ⟨name, text, wholly.trans inOrder, nameKind, textKind⟩

/-! ### Type definitions around a body -/

/-- From a type definition around a body, what the body captures is captured, and then the name that is
defined. -/
theorem leaves_of_definition {part : Pattern} {node : Cursor}
    (finds : (typedefAround part).Finds alphabet enclosing node) (one : part.head.quantifier = .one)
    (unmixed : Unmixed [part, leaf ["type_identifier"] .one]) :
    ∃ specifier name, node.ofKinds part.head.kinds = [specifier] ∧
      node.ofKinds ["type_identifier"] = [name] ∧ node.leaves = specifier.leaves ++ [name] ∧
      ∃ around, part.Finds alphabet around specifier := by
  have isDefinition : node.kind = "type_definition" := finds.kind_eq rfl
  have shape : ((typedefAround part).shape enclosing).children
      = [part, leaf ["type_identifier"] .one] := rfl
  obtain ⟨_, parts⟩ := finds.siblings shape (by simp) unmixed
  obtain ⟨single, found⟩ := parts part (by simp)
  rw [one] at single
  obtain ⟨specifier, isSpecifier⟩ : ∃ specifier, node.ofKinds part.head.kinds = [specifier] :=
    List.length_eq_one_iff.mp single
  obtain ⟨name, isName⟩ : ∃ name, node.ofKinds ["type_identifier"] = [name] :=
    List.length_eq_one_iff.mp (parts (leaf ["type_identifier"] .one) (by simp)).1
  have nameKind : name.kind = "type_identifier" := Cursor.kind_of_only isName
  have inOrder := named_of_definition finds unmixed isSpecifier isName
  have nameLeaves : name.leaves = [name] := Cursor.leaves_of_captured (by rw [nameKind]; decide)
  refine ⟨specifier, name, isSpecifier, isName, ?_, _, found specifier (by simp [isSpecifier])⟩
  rw [Cursor.leaves_of_children (by rw [isDefinition]; decide) (by rw [isDefinition]; decide), inOrder,
    List.flatMap_cons, List.flatMap_singleton, nameLeaves]

/-! ### Records and enumerations -/

/-- The first capture of a specifier with a tag is that of the tag. -/
theorem firstCapture_of_tagged (bytes : List UInt8) {node : Cursor} {more : List Cursor}
    (leaves : node.leaves = node.ofKinds ["type_identifier"] ++ more)
    (hasName : node.focus.hasName = true) :
    ∃ tag rest others, tag ∈ node.ofKinds ["type_identifier"] ∧ node.leaves = tag :: rest ∧
      (node.capturesAfter bytes []).reverse
        = ⟨tag.kind, tag.textIn bytes ++ pointersOf rest⟩ :: others := by
  obtain ⟨tag, tags, isTag⟩ := List.exists_cons_of_ne_nil (Cursor.hasName_iff.mp hasName)
  have tagged : tag ∈ node.ofKinds ["type_identifier"] := by simp [isTag]
  rw [isTag, List.cons_append] at leaves
  have isType : tag.kind ∈ Capture.typeNames := by
    rw [List.mem_singleton.mp (Cursor.mem_ofKinds.mp tagged).2]
    decide
  obtain ⟨others, captured⟩ := Cursor.captures_of_tag leaves isType
  exact ⟨tag, _, others, tagged, leaves, captured⟩

/-- From a node with a list of entries, what stands before the list is captured, and then what is captured
from the entries. -/
theorem leaves_of_listing {kinds : List String} {headKind listKind : String} {quantifier many : Quantifier}
    {part : Pattern} {node : Cursor}
    (finds : (branch kinds quantifier [leaf [headKind] many,
      branch [listKind] .one [part]]).Finds alphabet enclosing node)
    (unmixed : Unmixed [leaf [headKind] many, branch [listKind] .one [part]])
    (kinds_ne : kinds ≠ [])
    (loud : ∀ kind ∈ listKind :: kinds, Capture.isCaptured kind = false ∧
      kind ∉ Capture.silentKinds) (captured : Capture.isCaptured headKind = true) :
    ∃ list, node.ofKinds [listKind] = [list] ∧
      node.leaves = node.ofKinds [headKind] ++ list.named.flatMap Cursor.leaves ∧
      many.Allows (node.ofKinds [headKind]).length ∧
      ∀ entry ∈ list.named, ∃ around, part.Finds alphabet around entry := by
  have shape : ((branch kinds quantifier [leaf [headKind] many,
      branch [listKind] .one [part]]).shape enclosing).children
      = [leaf [headKind] many, branch [listKind] .one [part]] := rfl
  obtain ⟨sorted, parts⟩ := finds.siblings shape (by simp) unmixed
  have allowed : many.Allows (node.ofKinds [headKind]).length :=
    (parts (leaf [headKind] many) (by simp)).1
  obtain ⟨single, listFinds⟩ := parts (branch [listKind] .one [part]) (by simp)
  obtain ⟨list, isList⟩ : ∃ list, node.ofKinds [listKind] = [list] :=
    List.length_eq_one_iff.mp single
  have listFound := listFinds list (by simp [isList])
  have listKind_eq : list.kind = listKind := listFound.kind_eq rfl
  have loudHere := loud node.kind (List.mem_cons_of_mem _ (finds.kind_mem kinds_ne))
  have loudList := loud list.kind (by simp [listKind_eq])
  have heads : (node.ofKinds [headKind]).flatMap Cursor.leaves = node.ofKinds [headKind] := by
    have single : ∀ head ∈ node.ofKinds [headKind], head.leaves = [head] := by
      intro head isHead
      apply Cursor.leaves_of_captured
      rwa [List.mem_singleton.mp (Cursor.mem_ofKinds.mp isHead).2]
    rw [List.flatMap_congr single, List.flatMap_singleton']
  refine ⟨list, isList, ?_, allowed, ?_⟩
  · rw [Cursor.leaves_of_children loudHere.1 loudHere.2, sorted]
    simp [isList, heads, Cursor.leaves_of_children loudList.1 loudList.2]
  · intro entry member
    have listShape : ((branch [listKind] .one [part]).shape
        (some ((branch kinds quantifier [leaf [headKind] many,
          branch [listKind] .one [part]]).shape enclosing))).children = [part] := rfl
    obtain ⟨other, isOther, found⟩ := (listFound.parts (by simp [listShape])).2 entry member
    rw [listShape, List.mem_singleton] at isOther
    exact ⟨_, isOther ▸ found⟩

end Rules

/-! ### Enumerators -/

namespace Cursor

/-- The nodes in the body of an enumeration. -/
def enumeratorNodes (specifier : Cursor) : List Cursor :=
  (specifier.ofKinds ["enumerator_list"]).flatMap named

/-- A node has a name and at most one value below it, and each of these is captured as a whole. -/
structure IsEnumerator (enumerator : Cursor) : Prop where
  kind : enumerator.kind = "enumerator"
  inOrder : ∃ name values, enumerator.named = name :: values ∧ values.length ≤ 1 ∧
    name.kind = "identifier"
  leaves : enumerator.leaves = enumerator.named
  noField : ∀ leaf ∈ enumerator.named, leaf.kind ≠ "field_identifier"

theorem IsEnumerator.pointerDepth_eq_zero {enumerator leaf : Cursor}
    (isEnumerator : enumerator.IsEnumerator) (isChild : leaf ∈ enumerator.named) :
    leaf.pointerDepth = 0 :=
  Cursor.pointerDepth_eq_zero isChild (by rw [isEnumerator.kind]; decide)

theorem IsEnumerator.length_named {enumerator : Cursor} (isEnumerator : enumerator.IsEnumerator) :
    enumerator.named.length = if enumerator.focus.hasValue then 2 else 1 := by
  obtain ⟨name, values, inOrder, atMostOne, _⟩ := isEnumerator.inOrder
  rw [Tree.hasValue, ← Cursor.map_focus_named, List.length_map, inOrder, List.length_cons]
  match values, atMostOne with
  | [], _ | [_], _ => rfl

/-- The captures after those of an enumerator are those of the enumerators after it. -/
theorem IsEnumerator.drop_captures {enumerator : Cursor} (isEnumerator : enumerator.IsEnumerator)
    {bytes : List UInt8} {rest : List Cursor} {tail : List Capture} :
    (((enumerator :: rest).flatMap named).map (leaf bytes) ++ tail).drop
        (if enumerator.focus.hasValue then 2 else 1)
      = (rest.flatMap named).map (leaf bytes) ++ tail := by
  rw [← isEnumerator.length_named, List.flatMap_cons, List.map_append, List.append_assoc]
  exact List.drop_left' (by simp)

end Cursor

namespace Rules

theorem isEnumerator_of_finds {enumerator : Cursor}
    (finds : enumeratorPattern.Finds alphabet enclosing enumerator) : enumerator.IsEnumerator := by
  have isEnumerator : enumerator.kind = "enumerator" := finds.kind_eq rfl
  have shape : (enumeratorPattern.shape enclosing).children = enumeratorPattern.children := rfl
  obtain ⟨⟨shares, cut⟩, found⟩ := finds.parts (by rw [shape]; decide)
  rw [shape] at cut found
  have captured : ∀ part ∈ enumeratorPattern.children, part.head.kinds ≠ [] ∧
      ∀ kind ∈ part.head.kinds, Capture.isCaptured kind = true ∧ kind ≠ "field_identifier" := by
    decide
  have wholly : ∀ child ∈ enumerator.named, child.leaves = [child] ∧
      child.kind ≠ "field_identifier" := by
    intro child isChild
    obtain ⟨part, isPart, partFinds⟩ := found child isChild
    obtain ⟨named, kinds⟩ := captured part isPart
    obtain ⟨isCaptured, notField⟩ := kinds _ (partFinds.kind_mem named)
    exact ⟨Cursor.leaves_of_captured isCaptured, notField⟩
  obtain ⟨names, others, _, read, nameConsumed, valueCut⟩ := Cut.of_single cut
  obtain ⟨values, nothing, _, rfl, valueConsumed, finished⟩ := Cut.of_single valueCut
  obtain rfl : nothing = [] := by cases finished; rfl
  obtain ⟨nameKind, rfl⟩ : ∃ kind, names = [kind] := List.length_eq_one_iff.mp nameConsumed.1
  rw [List.append_nil, List.singleton_append] at read
  obtain ⟨name, rest, inOrder, isName, areValues⟩ := List.map_eq_cons_iff.mp read
  refine ⟨isEnumerator, ⟨name, rest, inOrder, ?_, ?_⟩, ?_,
    fun child isChild => (wholly child isChild).2⟩
  · have bounded : values.length ≤ 1 := valueConsumed.1
    rwa [← areValues, List.length_map] at bounded
  · have accepted := nameConsumed.2 nameKind (by simp)
    rw [← isName, Head.accepts_iff (by simp)] at accepted
    exact List.mem_singleton.mp accepted
  · rw [Cursor.leaves_of_children (by rw [isEnumerator]; decide) (by rw [isEnumerator]; decide),
      List.flatMap_congr fun child isChild => (wholly child isChild).1, List.flatMap_singleton']

/-- From an enumeration, its tag is captured, if it has one, and then each enumerator's name and value;
none of them has pointers. -/
theorem leaves_of_enumeration {specifier : Cursor}
    (finds : enumerationPattern.Finds alphabet enclosing specifier) :
    specifier.leaves
        = specifier.ofKinds ["type_identifier"] ++ specifier.enumeratorNodes.flatMap Cursor.named ∧
      (specifier.ofKinds ["type_identifier"]).length ≤ 1 ∧
      (∀ enumerator ∈ specifier.enumeratorNodes, enumerator.IsEnumerator) ∧
      enumerators specifier.focus = specifier.enumeratorNodes.map Cursor.focus := by
  obtain ⟨list, isList, leaves, atMostOne, entries⟩ :=
    leaves_of_listing finds (by decide) (by simp) (by decide) (by decide)
  have body : specifier.enumeratorNodes = list.named := by
    simp [Cursor.enumeratorNodes, isList]
  have areEnumerators : ∀ enumerator ∈ list.named, enumerator.IsEnumerator := by
    intro enumerator member
    obtain ⟨_, found⟩ := entries enumerator member
    exact isEnumerator_of_finds found
  have kept : (list.named.map Cursor.focus).filter (fun child => child.kind == "enumerator")
      = list.named.map Cursor.focus := by
    rw [List.filter_eq_self]
    intro child member
    obtain ⟨enumerator, isEntry, rfl⟩ := List.mem_map.mp member
    exact beq_iff_eq.mpr (areEnumerators enumerator isEntry).kind
  refine ⟨?_, atMostOne, by rwa [body], ?_⟩
  · rw [leaves, body, List.flatMap_congr fun enumerator member =>
      (areEnumerators enumerator member).leaves]
  · rw [body, enumerators, Cursor.namedOfKind?_eq, isList, List.head?_cons, Option.map_some]
    dsimp only
    rw [← Cursor.map_focus_named, kept]

/-- Whatever is captured from an enumeration is no field's name, and has no pointers. -/
theorem plain_of_enumeration {specifier leaf : Cursor}
    (finds : enumerationPattern.Finds alphabet enclosing specifier)
    (member : leaf ∈ specifier.leaves) :
    leaf.kind ≠ "field_identifier" ∧ leaf.pointerDepth = 0 := by
  have isSpecifier : specifier.kind = "enum_specifier" := finds.kind_eq rfl
  obtain ⟨leaves, _, areEnumerators, _⟩ := leaves_of_enumeration finds
  rw [leaves, List.mem_append] at member
  rcases member with isTag | inside
  · obtain ⟨isChild, kind⟩ := Cursor.mem_ofKinds.mp isTag
    refine ⟨?_, Cursor.pointerDepth_eq_zero isChild (by rw [isSpecifier]; decide)⟩
    rw [List.mem_singleton.mp kind]
    decide
  · obtain ⟨enumerator, isEntry, isChild⟩ := List.mem_flatMap.mp inside
    have isEnumerator := areEnumerators enumerator isEntry
    exact ⟨isEnumerator.noField leaf isChild, isEnumerator.pointerDepth_eq_zero isChild⟩

theorem captures_of_enumeration {specifier : Cursor}
    (finds : enumerationPattern.Finds alphabet enclosing specifier) :
    (specifier.capturesAfter bytes []).reverse = specifier.leaves.map (Cursor.leaf bytes) := by
  rw [Cursor.captures_eq_spelled fun leaf member => (plain_of_enumeration finds member).1]
  exact spelled_of_plain fun leaf member _ => (plain_of_enumeration finds member).2

/-- After the tag of an enumeration, its enumerators are captured, and whatever comes after it. -/
theorem drop_tag_of_enumeration (bytes : List UInt8) {specifier : Cursor}
    (finds : enumerationPattern.Finds alphabet enclosing specifier) (more : List Cursor) :
    ((specifier.leaves ++ more).map (Cursor.leaf bytes)).drop
        (if specifier.focus.hasName then 1 else 0)
      = (specifier.enumeratorNodes.flatMap Cursor.named).map (Cursor.leaf bytes)
        ++ more.map (Cursor.leaf bytes) := by
  obtain ⟨leaves, atMostOne, _, _⟩ := leaves_of_enumeration finds
  have tagged : specifier.focus.hasName = true ↔ specifier.ofKinds ["type_identifier"] ≠ [] :=
    Cursor.hasName_iff
  rw [leaves, List.append_assoc, List.map_append]
  match tags : specifier.ofKinds ["type_identifier"], atMostOne with
  | [], _ => simp [tagged, tags]
  | [tag], _ => simp [tagged, tags]

/-- From a type definition around an enumeration, the same is captured, and then the name that is defined. -/
theorem captures_of_definedEnumeration (bytes : List UInt8) {node : Cursor}
    (finds : (typedefAround enumerationPattern).Finds alphabet enclosing node) :
    ∃ specifier name, node.ofKinds ["enum_specifier"] = [specifier] ∧
      node.ofKinds ["type_identifier"] = [name] ∧
      node.leaves = specifier.leaves ++ [name] ∧
      (node.capturesAfter bytes []).reverse = (specifier.leaves ++ [name]).map (Cursor.leaf bytes) ∧
      ∃ around, enumerationPattern.Finds alphabet around specifier := by
  have isDefinition : node.kind = "type_definition" := finds.kind_eq rfl
  obtain ⟨specifier, name, isSpecifier, isName, leaves, around, found⟩ :=
    leaves_of_definition finds rfl (by decide)
  obtain ⟨isChild, kind⟩ : name ∈ node.named ∧ name.kind ∈ ["type_identifier"] :=
    Cursor.mem_ofKinds.mp (by rw [isName]; exact List.mem_singleton_self _)
  have plain : ∀ leaf ∈ node.leaves, leaf.kind ≠ "field_identifier" ∧ leaf.pointerDepth = 0 := by
    intro leaf member
    rw [leaves, List.mem_append, List.mem_singleton] at member
    rcases member with inside | rfl
    · exact plain_of_enumeration found inside
    · refine ⟨?_, Cursor.pointerDepth_eq_zero isChild (by rw [isDefinition]; decide)⟩
      rw [List.mem_singleton.mp kind]
      decide
  refine ⟨specifier, name, isSpecifier, isName, leaves, ?_, around, found⟩
  rw [Cursor.captures_eq_spelled fun leaf member => (plain leaf member).1,
    spelled_of_plain fun leaf member _ => (plain leaf member).2, leaves]

end Rules

end HeaderBindings
