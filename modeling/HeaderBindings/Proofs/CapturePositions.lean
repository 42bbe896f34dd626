/-
Module: HeaderBindings.Proofs.CapturePositions
Purpose: The captures of a claimed node stand where the action that claims the node looks for them, so
  that no action looks for a capture that is not there.
Main exports: EnumeratorLayout, EnumerationLayout, RecordLayout, Layout, Rules.captures_at_positions
-/
import HeaderBindings.Proofs.DefinedBodies
import HeaderBindings.Proofs.FailingDocuments

namespace HeaderBindings

open Pattern Run

/-! ### Layouts -/

/-- The kinds of the values that enumerators may have. -/
def valueKinds : List String :=
  ["number_literal", "char_literal", "identifier", "parenthesized_expression", "binary_expression",
   "unary_expression", "math_expression", "bitwise_expression", "shift_expression"]

section

variable (bytes : List UInt8)

/-- The captures of an enumerator: its name, and one value exactly if it has a second child. -/
inductive EnumeratorLayout (enumerator : Cursor) : List Capture → Prop where
  | named {name : Cursor} (alone : enumerator.named = [name]) :
      EnumeratorLayout enumerator [⟨"identifier", name.textIn bytes⟩]
  | valued {name value : Cursor} (both : enumerator.named = [name, value])
      (admitted : value.kind ∈ valueKinds) :
      EnumeratorLayout enumerator
        [⟨"identifier", name.textIn bytes⟩, ⟨value.kind, value.textIn bytes⟩]

/-- The captures before those of enumerators: that of the tag, exactly if there is one. -/
inductive TagLayout (specifier : Cursor) : List Capture → Prop where
  | tagged {tag : Cursor} (isTag : specifier.ofKinds ["type_identifier"] = [tag]) :
      TagLayout specifier [⟨"type_identifier", tag.textIn bytes⟩]
  | untagged (noTag : specifier.ofKinds ["type_identifier"] = []) : TagLayout specifier []

/-- The captures of an enumeration: that of its tag, if it has one, and then those of its enumerators in
order. The enumerators that the action goes through are the same. -/
structure EnumerationLayout (specifier : Cursor) (captures : List Capture) : Prop where
  kind : specifier.kind = "enum_specifier"
  recount : enumerators specifier.focus = specifier.enumeratorNodes.map Cursor.focus
  parts : ∃ tags groups, TagLayout bytes specifier tags ∧
    List.Forall₂ (EnumeratorLayout bytes) specifier.enumeratorNodes groups ∧
    captures = tags ++ groups.flatten

/-- The captures of a struct or a union begin with that of the tag, if it has one. Its text is that of the
tag if the first declaration of a field has a type. -/
inductive RecordLayout (specifier : Cursor) : List Capture → Prop where
  | tagged {tag : Cursor} {fields : List Capture}
      (isTag : specifier.ofKinds ["type_identifier"] = [tag])
      (own : specifier.FirstFieldTyped → specifier.tagText bytes tag = tag.textIn bytes) :
      RecordLayout specifier (⟨"type_identifier", specifier.tagText bytes tag⟩ :: fields)
  | untagged {fields : List Capture} (noTag : specifier.ofKinds ["type_identifier"] = []) :
      RecordLayout specifier fields

/-- The captures of a claimed node stand where the action that claims it looks for them. Two of the actions
see for themselves whether there are enough. -/
inductive Layout (node : Cursor) : Action → List Capture → Prop where
  | constant {name text : Cursor} (kind : node.kind = "preproc_def") (children : node.named = [name, text]) :
      Layout node .defineConstant
        [⟨"identifier", name.textIn bytes⟩, ⟨"preproc_arg", text.textIn bytes⟩]
  | record {captures : List Capture} (kind : node.kind ∈ ["struct_specifier", "union_specifier"])
      (body : RecordLayout bytes node captures) : Layout node .declareRecord captures
  | definedRecord {specifier name : Cursor} {captures : List Capture}
      (kind : node.kind = "type_definition") (children : node.named = [specifier, name])
      (found : node.focus.namedOfKind? ["struct_specifier", "union_specifier"] = some specifier.focus)
      (body : RecordLayout bytes specifier captures) :
      Layout node .declareTypedefRecord (captures ++ [⟨"type_identifier", name.textIn bytes⟩])
  | enumeration {captures : List Capture} (body : EnumerationLayout bytes node captures) :
      Layout node .declareEnumeration captures
  | definedEnumeration {specifier name : Cursor} {captures : List Capture}
      (kind : node.kind = "type_definition") (children : node.named = [specifier, name])
      (found : node.focus.namedOfKind? ["enum_specifier"] = some specifier.focus)
      (body : EnumerationLayout bytes specifier captures) :
      Layout node .declareTypedefEnumeration (captures ++ [⟨"type_identifier", name.textIn bytes⟩])
  | counted {action : Action} {captures : List Capture} (of : action ∈ [.declareAlias, .declareFunction])
      (kind : node.kind ∈ ["type_definition", "declaration"])
      (few : captures.length < 2 → action.run (some node) captures = pure ()) :
      Layout node action captures

end

variable {bytes : List UInt8} {alphabet : Alphabet} {enclosing : Option Pattern}
  {node specifier enumerator tag : Cursor}

namespace Rules

/-! ### Enumerations -/

theorem kind_mem_valueKinds (finds : enumeratorPattern.Finds alphabet enclosing enumerator) {child : Cursor}
    (isChild : child ∈ enumerator.named) : child.kind ∈ valueKinds := by
  have admitted : ∀ part ∈ enumeratorPattern.children, part.head.kinds ≠ [] ∧
      ∀ kind ∈ part.head.kinds, kind ∈ valueKinds := by
    decide
  have shape : (enumeratorPattern.shape enclosing).children = enumeratorPattern.children := rfl
  obtain ⟨_, found⟩ := finds.parts (by rw [shape]; decide)
  rw [shape] at found
  obtain ⟨part, isPart, partFinds⟩ := found child isChild
  obtain ⟨named, kinds⟩ := admitted part isPart
  exact kinds _ (partFinds.kind_mem named)

theorem enumeratorLayout_of_finds (finds : enumeratorPattern.Finds alphabet enclosing enumerator) :
    EnumeratorLayout bytes enumerator (enumerator.named.map (Cursor.leaf bytes)) := by
  obtain ⟨name, values, inOrder, atMostOne, nameKind⟩ := (isEnumerator_of_finds finds).inOrder
  rw [inOrder, List.map_cons, Cursor.leaf, nameKind]
  rcases values with _ | ⟨value, _ | ⟨other, rest⟩⟩
  · exact .named inOrder
  · exact .valued inOrder (kind_mem_valueKinds finds (by simp [inOrder]))
  · simp at atMostOne

theorem tagLayout_of_atMostOne (atMostOne : (specifier.ofKinds ["type_identifier"]).length ≤ 1) :
    TagLayout bytes specifier ((specifier.ofKinds ["type_identifier"]).map (Cursor.leaf bytes)) := by
  rcases tags : specifier.ofKinds ["type_identifier"] with _ | ⟨tag, _ | ⟨other, rest⟩⟩
  · exact .untagged tags
  · rw [List.map_singleton, Cursor.leaf, Cursor.kind_of_only tags]
    exact .tagged tags
  · simp [tags] at atMostOne

/-- What is captured from an enumeration is laid out by its tag and its enumerators. -/
theorem enumerationLayout_of_finds (finds : enumerationPattern.Finds alphabet enclosing specifier) :
    EnumerationLayout bytes specifier (specifier.leaves.map (Cursor.leaf bytes)) := by
  obtain ⟨leaves, atMostOne, _, recount⟩ := leaves_of_enumeration finds
  obtain ⟨list, isList, _, _, entries⟩ :=
    leaves_of_listing finds (by decide) (by simp) (by decide) (by decide)
  refine ⟨finds.kind_eq rfl, recount, _,
    specifier.enumeratorNodes.map fun enumerator => enumerator.named.map (Cursor.leaf bytes),
    tagLayout_of_atMostOne atMostOne, ?_, ?_⟩
  · rw [List.forall₂_map_right_iff, List.forall₂_same]
    intro enumerator member
    rw [Cursor.enumeratorNodes, isList, List.flatMap_singleton] at member
    obtain ⟨_, found⟩ := entries enumerator member
    exact enumeratorLayout_of_finds found
  · rw [leaves, List.map_append, List.map_flatMap, List.flatMap_def]

/-! ### Structs and unions -/

/-- What is captured from a struct or a union begins with its tag, if it has one. -/
theorem recordLayout_of_finds (finds : recordPattern.Finds alphabet enclosing specifier) :
    RecordLayout bytes specifier (specifier.capturesAfter bytes []).reverse := by
  rcases tags_of_record finds with noTag | ⟨tag, isTag⟩
  · exact .untagged noTag
  · rw [captures_of_taggedRecord finds isTag]
    exact .tagged isTag (tagText_of_typed finds isTag)

/-! ### Claimed nodes -/

/-- What is captured from a macro are its name and its text. -/
theorem layout_of_macro (claimed : Claims node .defineConstant) :
    Layout bytes node .defineConstant (node.capturesAfter bytes []).reverse := by
  have finds : macroPattern.Finds Rules.alphabet none node := finds_of_claims claimed (by simp [shapeList])
  obtain ⟨name, text, inOrder, nameKind, textKind⟩ := named_of_macro finds
  obtain ⟨first, second, leaves, captured⟩ := captures_of_macro bytes claimed
  have wholly : node.leaves = node.named := leaves_eq_named_of_macro finds
  obtain ⟨rfl, rfl⟩ : name = first ∧ text = second := by simpa [wholly, inOrder] using leaves
  rw [captured, Cursor.leaf, Cursor.leaf, nameKind, textKind]
  exact .constant (finds.kind_eq rfl) inOrder

/-- What is captured from a type definition around a body is what is captured from the body, and then
the name that is defined. -/
theorem exists_body_of_definition {part : Pattern} (finds : (typedefAround part).Finds alphabet none node)
    (one : part.head.quantifier = .one) (unmixed : Unmixed [part, leaf ["type_identifier"] .one]) :
    ∃ specifier name, node.named = [specifier, name] ∧
      node.focus.namedOfKind? part.head.kinds = some specifier.focus ∧
      (∃ around, part.Finds alphabet around specifier) ∧
      ∀ bytes, (node.capturesAfter bytes []).reverse
        = (specifier.capturesAfter bytes []).reverse ++ [⟨"type_identifier", name.textIn bytes⟩] := by
  obtain ⟨specifier, name, body, defined, _, found⟩ := leaves_of_definition finds one unmixed
  refine ⟨specifier, name, named_of_definition finds unmixed body defined, ?_, found, fun bytes => ?_⟩
  · rw [Cursor.namedOfKind?_eq, body]
    rfl
  · obtain ⟨captured, _⟩ := capturesAfter_definition finds bytes unmixed body defined
    rw [captured, List.reverse_cons, Cursor.leaf, Cursor.kind_of_only defined]

/-- Whatever action claims a node, the captures stand where it looks for them. -/
theorem layout_of_claims {action : Action} (claimed : Claims node action) :
    Layout bytes node action (node.capturesAfter bytes []).reverse := by
  cases action with
  | defineConstant => exact layout_of_macro claimed
  | declareAlias =>
      have finds : typedefPattern.Finds Rules.alphabet none node :=
        finds_of_claims claimed (by simp [shapeList])
      refine .counted (by decide) ?_ fun few => (eq_pure_of_short few).2.1
      rw [finds.kind_eq rfl]
      decide
  | declareFunction =>
      have finds : functionPattern.Finds Rules.alphabet none node :=
        finds_of_claims claimed (by simp [shapeList])
      refine .counted (by decide) ?_ fun few => (eq_pure_of_short few).2.2
      rw [finds.kind_eq rfl]
      decide
  | declareRecord =>
      have finds : recordPattern.Finds Rules.alphabet none node :=
        finds_of_claims claimed (by simp [shapeList])
      exact .record (finds.kind_mem (by decide)) (recordLayout_of_finds finds)
  | declareEnumeration =>
      have finds : enumerationPattern.Finds Rules.alphabet none node :=
        finds_of_claims claimed (by simp [shapeList])
      rw [captures_of_enumeration finds]
      exact .enumeration (enumerationLayout_of_finds finds)
  | declareTypedefRecord =>
      have finds : (typedefAround recordPattern).Finds Rules.alphabet none node :=
        finds_of_claims claimed (by simp [shapeList])
      obtain ⟨specifier, name, children, isFirst, ⟨_, found⟩, captured⟩ :=
        exists_body_of_definition finds rfl (by decide)
      rw [captured]
      exact .definedRecord (finds.kind_eq rfl) children isFirst (recordLayout_of_finds found)
  | declareTypedefEnumeration =>
      have finds : (typedefAround enumerationPattern).Finds Rules.alphabet none node :=
        finds_of_claims claimed (by simp [shapeList])
      obtain ⟨specifier, name, children, isFirst, ⟨_, found⟩, captured⟩ :=
        exists_body_of_definition finds rfl (by decide)
      rw [captured, captures_of_enumeration found]
      exact .definedEnumeration (finds.kind_eq rfl) children isFirst (enumerationLayout_of_finds found)

/-- A claimed node is claimed by one of the actions; its captures stand where this action looks for them; and
whatever was declared before, the action never looks for a capture or a node that is not there. -/
theorem captures_at_positions {claim : Claim Action}
    (claimed : table.claim? Rules.alphabet node = some claim) :
    ∃ action, claim.entry.action = some action ∧
      (∀ bytes, Layout bytes node action (claim.found.captures bytes)) ∧
      ∀ bytes before fault after,
        (table.dispatch Rules.alphabet bytes Generation.runDefault node).Faults before fault after →
          fault ≠ .missingCapture ∧ fault ≠ .missingNode := by
  obtain ⟨shape, _, taken, _, _⟩ := stands_of_claim claimed
  have claims : Claims node shape.2 := Option.bind_eq_some_iff.mpr ⟨claim, claimed, taken⟩
  refine ⟨shape.2, taken, fun bytes => ?_, ?_⟩
  · rw [captures_of_claim claimed]
    exact layout_of_claims claims
  · intro bytes before fault after faults
    -- The macros of the registry are all that the action could read a number from besides its captures.
    have macros : before.MacrosAmong fun value =>
        ∃ constant, .constant constant ∈ before.emitted.constants ∧ constant.value = value :=
      fun constant emitted => ⟨constant, emitted, rfl⟩
    obtain ⟨_, _, action, _, spoiled⟩ := failsOnly_dispatch macros fault after faults
    cases spoiled <;> exact ⟨by simp, by simp⟩

/-- The type definition `typedef enum E { A, B = 1 } T;`. -/
def valuedEnumeration : Document where
  bytes := "typedef enum E \x7b A, B = 1 \x7d T;".toUTF8.toList
  tree := .node ⟨"type_definition", 0, 30, none⟩ [
    .node ⟨"enum_specifier", 8, 27, some "type"⟩ [
      .node ⟨"type_identifier", 13, 14, some "name"⟩ [],
      .node ⟨"enumerator_list", 15, 27, some "body"⟩ [
        .node ⟨"enumerator", 17, 18, none⟩ [.node ⟨"identifier", 17, 18, some "name"⟩ []],
        .node ⟨"enumerator", 20, 25, none⟩ [
          .node ⟨"identifier", 20, 21, some "name"⟩ [],
          .node ⟨"number_literal", 24, 25, some "value"⟩ []]]],
    .node ⟨"type_identifier", 28, 29, some "declarator"⟩ []]
  hasError := false

/-- The tag comes first, the name that is defined last, and only the second enumerator has a value. -/
theorem captures_at_positions_valuedEnumeration :
    let bytes := valuedEnumeration.bytes
    let node := Cursor.root valuedEnumeration.tree
    ∃ claim, table.claim? Rules.alphabet node = some claim ∧
      claim.found.captures bytes
        = [⟨"type_identifier", "E"⟩, ⟨"identifier", "A"⟩, ⟨"identifier", "B"⟩,
        ⟨"number_literal", "1"⟩, ⟨"type_identifier", "T"⟩] ∧
      Layout bytes node .declareTypedefEnumeration (claim.found.captures bytes) := by
  intro bytes node
  have claims : Claims node .declareTypedefEnumeration := by decide +kernel
  obtain ⟨claim, claimed, taken⟩ := Option.bind_eq_some_iff.mp claims
  obtain ⟨action, takenToo, layout, _⟩ := captures_at_positions claimed
  obtain rfl : .declareTypedefEnumeration = action := Option.some.inj (taken.symm.trans takenToo)
  refine ⟨claim, claimed, ?_, layout bytes⟩
  rw [captures_of_claim claimed]
  decide +kernel

end Rules

end HeaderBindings
