/-
Module: HeaderBindings.Proofs.RecordFields
Purpose: A claimed struct or union is declared with the fields that its tree declares.
Main exports: returns_readFields_captures, RecordName, Rules.dispatch_declares_record
-/
import HeaderBindings.Generation
import HeaderBindings.Proofs.ActionSteps
import HeaderBindings.Proofs.FieldCaptures

namespace HeaderBindings

open Spelling

/-! ### Reading captures back -/

namespace FieldShape

/-- The captures of a field can be told apart: lengths are lengths, a width is a width, and the type is
neither. -/
def WellFormed : FieldShape → Prop
  | named type _ lengths width => type.kind ∈ typeKinds ∧
      (∀ length ∈ lengths, length.isArrayLength = true) ∧
      ∀ capture ∈ width, capture.isBitWidth = true
  | padding type width => type.kind ∈ typeKinds ∧ width.isBitWidth = true

/-- The type of a field has a type expression. -/
def Typed (shape : FieldShape) : Prop := ∃ type, typeExpr shape.type.text = .ok type

instance (shape : FieldShape) : Decidable shape.Typed :=
  match result : typeExpr shape.type.text with
  | .ok type => .isTrue ⟨type, result⟩
  | .error _ => .isFalse fun ⟨_, isTyped⟩ => by
      rw [result] at isTyped
      cases isTyped

end FieldShape

/-- Captures that do not go on with what belongs to the field before them. -/
def StartsAnew (captures : List Capture) : Prop :=
  ∀ first ∈ captures.head?, first.isArrayLength = false ∧ first.isBitWidth = false

theorem StartsAnew.flatMap_captures {shapes : List FieldShape}
    (wellFormed : ∀ shape ∈ shapes, shape.WellFormed) :
    StartsAnew (shapes.flatMap FieldShape.captures) := by
  have typeKind : ∀ {capture : Capture}, capture.kind ∈ typeKinds →
      capture.isArrayLength = false ∧ capture.isBitWidth = false := by
    intro capture isType
    have apart : ∀ kind ∈ typeKinds, arrayLengthKinds.contains kind = false ∧
        (kind == "bitfield_clause") = false := by decide
    exact apart _ isType
  cases shapes with
  | nil => simp [StartsAnew]
  | cons shape rest =>
      have first := wellFormed shape List.mem_cons_self
      cases shape with
      | named type name lengths width =>
          simpa [StartsAnew, FieldShape.captures] using typeKind first.1
      | padding type width => simpa [StartsAnew, FieldShape.captures] using typeKind first.1

/-- After a field's name, its lengths are taken and then its width, and nothing of the next field. -/
theorem lengths_and_width {lengths rest : List Capture} {width : Option Capture}
    (areLengths : ∀ length ∈ lengths, length.isArrayLength = true)
    (isWidth : ∀ capture ∈ width, capture.isBitWidth = true) (anew : StartsAnew rest) :
    (lengths ++ width.toList ++ rest).takeWhile Capture.isArrayLength = lengths ∧
      fieldTail (lengths ++ width.toList ++ rest) = (width.map Capture.bitWidth, rest) := by
  have noLength : ∀ first ∈ (width.toList ++ rest).head?, first.isArrayLength = false := by
    intro first isFirst
    cases width with
    | none => exact (anew first (by simpa using isFirst)).1
    | some capture =>
        obtain rfl : capture = first := by simpa using isFirst
        have bits : capture.kind = "bitfield_clause" := by
          simpa [Capture.isBitWidth] using isWidth capture rfl
        rw [Capture.isArrayLength, bits]
        decide
  have taken : (width.toList ++ rest).takeWhile Capture.isArrayLength = [] ∧
      (width.toList ++ rest).dropWhile Capture.isArrayLength = width.toList ++ rest := by
    cases remaining : width.toList ++ rest with
    | nil => exact ⟨rfl, rfl⟩
    | cons first others =>
        have notLength := noLength first (by rw [remaining]; rfl)
        simp [notLength]
  constructor
  · rw [List.append_assoc, List.takeWhile_append_of_pos areLengths, taken.1, List.append_nil]
  · rw [fieldTail, List.append_assoc, List.dropWhile_append_of_pos areLengths, taken.2]
    cases width with
    | some capture => simp [takeBitWidth, isWidth capture rfl]
    | none =>
        cases rest with
        | nil => rfl
        | cons first others => simp [takeBitWidth, (anew first rfl).2]

theorem returns_target_of_typed (spelled : String) (typed : ∃ type, typeExpr spelled = .ok type)
    (before : Registry) :
    (Run.target spelled).Returns before (FieldShape.target spelled)
      (before.referAll (FieldShape.target spelled).reference?.toList) := by
  obtain ⟨type, isTyped⟩ := typed
  have same : FieldShape.target spelled = type.getD .noValue := by
    rw [FieldShape.target, isTyped]
    rfl
  exact Run.returns_target_iff.mpr ⟨⟨type, isTyped, same⟩, rfl⟩

/-- The captures of one field read back as this field. -/
theorem returns_readFields_cons {shape : FieldShape} (wellFormed : shape.WellFormed)
    (typed : shape.Typed) {rest : List Capture} (anew : StartsAnew rest) {known result : List Field}
    {before after : Registry}
    (later : (readFields (known ++ [shape.field known.length]) rest).Returns
      (before.referAll (FieldShape.target shape.type.text).reference?.toList) result after) :
    (readFields known (shape.captures ++ rest)).Returns before result after := by
  cases shape with
  | named type name lengths width =>
      obtain ⟨taken, tail⟩ := lengths_and_width wellFormed.2.1 wellFormed.2.2 anew
      have notWidth : (⟨"field_identifier", name⟩ : Capture).isBitWidth = false := by
        simp [Capture.isBitWidth]
      simp only [FieldShape.captures, List.cons_append]
      rw [readFields]
      refine (returns_target_of_typed type.text typed before).bind ?_
      rw [if_neg (by simp [notWidth]), taken, tail]
      exact later
  | padding type width =>
      simp only [FieldShape.captures, List.cons_append, List.nil_append]
      rw [readFields]
      refine (returns_target_of_typed type.text typed before).bind ?_
      rw [if_pos wellFormed.2]
      exact later

/-- The captures of fields read back as these fields. -/
theorem returns_readFields_captures {shapes : List FieldShape}
    (wellFormed : ∀ shape ∈ shapes, shape.WellFormed) (typed : ∀ shape ∈ shapes, shape.Typed)
    (known : List Field) (before : Registry) :
    ∃ after, (readFields known (shapes.flatMap FieldShape.captures)).Returns before
      (known ++ shapes.mapIdx fun index shape => shape.field (known.length + index)) after := by
  induction shapes generalizing known before with
  | nil =>
      refine ⟨before, ?_⟩
      rw [List.flatMap_nil, readFields]
      · simp
      · simp
  | cons shape rest ih =>
      rw [List.forall_mem_cons] at wellFormed typed
      have anew := StartsAnew.flatMap_captures wellFormed.2
      obtain ⟨after, later⟩ := ih wellFormed.2 typed.2 (known ++ [shape.field known.length])
        (before.referAll (FieldShape.target shape.type.text).reference?.toList)
      have indices : known ++ [shape.field known.length]
            ++ rest.mapIdx (fun index shape =>
              shape.field ((known ++ [shape.field known.length]).length + index))
          = known ++ (shape :: rest).mapIdx fun index shape =>
            shape.field (known.length + index) := by
        simp [List.mapIdx_cons, Nat.add_assoc, Nat.add_comm 1]
      refine ⟨after, ?_⟩
      rw [List.flatMap_cons]
      refine returns_readFields_cons wellFormed.1 typed.1 anew ?_
      rw [← indices]
      simpa using later

/-! ### The fields of a claimed record -/

namespace DeclaresAll

theorem wellFormed {bytes : List UInt8} {type : Capture} {declarators : List Cursor}
    {shapes : List FieldShape} (declares : DeclaresAll bytes type declarators shapes)
    (isType : type.kind ∈ typeKinds) : ∀ shape ∈ shapes, shape.WellFormed := by
  induction declares with
  | nil => simp
  | field declares _ ih =>
      exact List.forall_mem_cons.mpr ⟨⟨isType, declares.isArrayLength, by simp⟩, ih⟩
  | bitField declares isWidth _ ih =>
      refine List.forall_mem_cons.mpr ⟨⟨isType, declares.isArrayLength, ?_⟩, ih⟩
      simpa [Capture.isBitWidth, Cursor.leaf] using isWidth

end DeclaresAll

theorem DeclaresFields.wellFormed {bytes : List UInt8} {declaration : Cursor}
    {shapes : List FieldShape} (declares : DeclaresFields bytes declaration shapes) :
    ∀ shape ∈ shapes, shape.WellFormed := by
  have isType : ∀ specifier, declaration.ofKinds typeKinds = [specifier] →
      (specifier.spellingNode.leaf bytes).kind ∈ typeKinds := by
    intro specifier typed
    have own : specifier.kind ∈ typeKinds := by
      have inside : specifier ∈ declaration.ofKinds typeKinds := by simp [typed]
      exact (Cursor.mem_ofKinds.mp inside).2
    change specifier.spellingNode.kind ∈ typeKinds
    unfold Cursor.spellingNode
    split
    · exact own
    · cases tags : specifier.ofKinds ["type_identifier"] with
      | nil => exact own
      | cons tag rest =>
          have isTag : tag ∈ specifier.ofKinds ["type_identifier"] := by simp [tags]
          rw [List.headD_cons, List.mem_singleton.mp (Cursor.mem_ofKinds.mp isTag).2]
          decide
  cases declares with
  | named typed _ declares => exact declares.wellFormed (isType _ typed)
  | padding typed _ _ isWidth =>
      refine List.forall_mem_cons.mpr ⟨⟨isType _ typed, ?_⟩, by simp⟩
      simpa [Capture.isBitWidth, Cursor.leaf] using isWidth

theorem wellFormed_flatten {bytes : List UInt8} {declarations : List Cursor}
    {shapes : List (List FieldShape)}
    (declares : List.Forall₂ (DeclaresFields bytes) declarations shapes) :
    ∀ shape ∈ shapes.flatten, shape.WellFormed := by
  induction declares with
  | nil => simp
  | cons first _ ih =>
      rw [List.flatten_cons, List.forall_mem_append]
      exact ⟨first.wellFormed, ih⟩

/-- Fields are declared under a name that is new. -/
theorem returns_emitRecord_of_fields {shapes : List FieldShape}
    (wellFormed : ∀ shape ∈ shapes, shape.WellFormed) (typed : ∀ shape ∈ shapes, shape.Typed)
    {name : String} {before : Registry} (named : name ≠ "")
    (new : before.isDeclared .types name = false) (spelling : String) (isUnion : Bool) :
    ∃ after, (emitRecord name spelling isUnion (shapes.flatMap FieldShape.captures)).Returns
        before () after ∧
      after.emitted = before.emitted.modify .types (· ++ [.record ⟨name, spelling,
        before.currentHeader, isUnion, shapes.mapIdx fun index shape => shape.field index⟩]) := by
  obtain ⟨between, read⟩ :=
    returns_readFields_captures wellFormed typed [] (before.reserve .types name)
  obtain ⟨_, _, left⟩ := addsNoting_readFields read
  simp only [List.nil_append, List.length_nil, Nat.zero_add] at read
  refine ⟨_, returns_emitRecord_iff.mpr (Or.inr ⟨named, new, _, between, read, rfl⟩), ?_⟩
  rw [left, Registry.referAll_frame]
  rfl

/-! ### What the actions see of a record -/

namespace Cursor

theorem hasName_iff {cursor : Cursor} :
    cursor.focus.hasName = true ↔ cursor.ofKinds ["type_identifier"] ≠ [] := by
  rw [Tree.hasName, ← map_focus_named, List.any_map, List.any_eq_true, ofKinds, ne_eq,
    List.filter_eq_nil_iff]
  simp [kind]

theorem hasName_of_tagged {specifier tag : Cursor}
    (tagged : specifier.ofKinds ["type_identifier"] = [tag]) : specifier.focus.hasName = true :=
  hasName_iff.mpr (by simp [tagged])

theorem hasName_of_untagged {specifier : Cursor}
    (untagged : specifier.ofKinds ["type_identifier"] = []) : specifier.focus.hasName = false := by
  rw [← Bool.not_eq_true, hasName_iff]
  simp [untagged]

theorem namedOfKind?_eq (cursor : Cursor) (kinds : List String) :
    cursor.focus.namedOfKind? kinds = (cursor.ofKinds kinds).head?.map focus := by
  rw [Tree.namedOfKind?, ← map_focus_named, List.find?_map, ofKinds, List.head?_filter]
  rfl

end Cursor

/-- The captures of a specifier's body: all but that of its tag, if it has one. -/
def Cursor.bodyCaptures (bytes : List UInt8) (specifier : Cursor) : List Capture :=
  (specifier.capturesAfter bytes []).reverse.drop (if specifier.focus.hasName then 1 else 0)

/-- The captures of a record's body are those that its declarations add. -/
theorem bodyCaptures_of_adds {alphabet : Alphabet} {bytes : List UInt8} {specifier : Cursor}
    {enclosing : Option Pattern} {added : List (List Capture)}
    (found : Rules.recordPattern.Finds alphabet enclosing specifier)
    (adds : List.Forall₂ (Cursor.Adds bytes) specifier.fieldDeclarations added) :
    specifier.bodyCaptures bytes = added.flatten := by
  rw [Cursor.bodyCaptures, capturesAfter_record_of_adds found adds]
  rcases tags_of_record found with untagged | ⟨tag, tagged⟩
  · rw [Cursor.hasName_of_untagged untagged, untagged]
    simp
  · rw [Cursor.hasName_of_tagged tagged, tagged]
    simp

/-- The captures of a record's body are those of its fields. -/
theorem bodyCaptures_eq {alphabet : Alphabet} {bytes : List UInt8} {specifier : Cursor}
    {enclosing : Option Pattern} {shapes : List (List FieldShape)}
    (found : Rules.recordPattern.Finds alphabet enclosing specifier)
    (declares : List.Forall₂ (DeclaresFields bytes) specifier.fieldDeclarations shapes) :
    specifier.bodyCaptures bytes = shapes.flatten.flatMap FieldShape.captures := by
  obtain ⟨_, _, _, _, finds⟩ := fieldDeclarations_of_record found
  rw [bodyCaptures_of_adds found (adds_of_declaresFields declares finds), flatten_map_captures]

/-- A type definition around a body has the body's specifier and the name that is defined. -/
theorem named_of_definition {alphabet : Alphabet} {part : Pattern} {enclosing : Option Pattern}
    {definition specifier last : Cursor}
    (found : (Rules.typedefAround part).Finds alphabet enclosing definition)
    (unmixed : Pattern.Unmixed [part, Rules.leaf ["type_identifier"] .one])
    (body : definition.ofKinds part.head.kinds = [specifier])
    (defined : definition.ofKinds ["type_identifier"] = [last]) :
    definition.named = [specifier, last] := by
  have shape : ((Rules.typedefAround part).shape enclosing).children
      = [part, Rules.leaf ["type_identifier"] .one] := rfl
  simpa [body, defined] using (found.siblings shape (by simp) unmixed).1

/-- The captures of a type definition around a body: those of the body's specifier, and the name that is
defined. -/
theorem capturesAfter_definition {alphabet : Alphabet} {part : Pattern}
    {definition specifier last : Cursor}
    (found : (Rules.typedefAround part).Finds alphabet none definition) (bytes : List UInt8)
    (unmixed : Pattern.Unmixed [part, Rules.leaf ["type_identifier"] .one])
    (body : definition.ofKinds part.head.kinds = [specifier])
    (defined : definition.ofKinds ["type_identifier"] = [last]) :
    definition.capturesAfter bytes [] = last.leaf bytes :: specifier.capturesAfter bytes [] ∧
      ∃ enclosing, part.Finds alphabet enclosing specifier := by
  have isDefinition : definition.kind = "type_definition" := found.kind_eq rfl
  have shape : ((Rules.typedefAround part).shape none).children
      = [part, Rules.leaf ["type_identifier"] .one] := rfl
  obtain ⟨_, parts⟩ := found.siblings shape (by simp) unmixed
  have inOrder := named_of_definition found unmixed body defined
  have isName : last ∈ definition.ofKinds ["type_identifier"] := by simp [defined]
  refine ⟨?_, _, (parts part (by simp)).2 specifier (by simp [body])⟩
  rw [Cursor.capturesAfter_children (by rw [isDefinition]; decide)
      (by rw [isDefinition]; decide), inOrder, List.foldl_cons, List.foldl_cons, List.foldl_nil]
  exact capturesAfter_tag isName (by simp [isDefinition]) _

/-- How a claimed struct or union is named: by its tag; without tag, by a name that is made up for it,
unless it is directly under a type definition; or by the type definition around it. The name that is
made up may have to be remembered. -/
inductive RecordName (bytes : List UInt8) (registry : Registry) :
    Action → Cursor → Cursor → String → String → Registry → Prop where
  | tag {specifier tag : Cursor} (tagged : specifier.ofKinds ["type_identifier"] = [tag]) :
      RecordName bytes registry .declareRecord specifier specifier (bindingName (tag.textIn bytes))
        ((if specifier.focus.isUnion then "union " else "struct ") ++ tag.textIn bytes) registry
  | madeUp {specifier : Cursor} {name : String} {noted : Registry}
      (untagged : specifier.ofKinds ["type_identifier"] = [])
      (onItsOwn : specifier.underTypedef = false)
      (made : (name, noted) = registry.uniqueName .types
        (if specifier.focus.isUnion then "AnonUnion" else "AnonStruct") (some specifier.spanKey)) :
      RecordName bytes registry .declareRecord specifier specifier name "" noted
  | definition {definition specifier name : Cursor}
      (body : definition.ofKinds ["struct_specifier", "union_specifier"] = [specifier])
      (defined : definition.ofKinds ["type_identifier"] = [name]) :
      RecordName bytes registry .declareTypedefRecord definition specifier
        (bindingName (name.textIn bytes)) (name.textIn bytes) registry

namespace RecordName

variable {bytes : List UInt8} {registry before after : Registry} {action : Action}
  {cursor specifier : Cursor} {name spelling : String} {fields : List Capture}

theorem emitted_eq (site : RecordName bytes registry action cursor specifier name spelling before) :
    before.emitted = registry.emitted ∧ before.currentHeader = registry.currentHeader := by
  cases site with
  | tag _ => exact ⟨rfl, rfl⟩
  | madeUp _ _ made => exact ⟨Registry.emitted_uniqueName made, by rw [Registry.uniqueName_frame made]⟩
  | definition _ _ => exact ⟨rfl, rfl⟩

/-- A claimed record is found where it stands, under a type definition or not. -/
theorem finds_specifier (site : RecordName bytes registry action cursor specifier name spelling before)
    {alphabet : Alphabet}
    (finds : ∀ pattern, (pattern, action) ∈ Rules.shapeList → pattern.Finds alphabet none cursor) :
    ∃ enclosing, Rules.recordPattern.Finds alphabet enclosing specifier := by
  cases site with
  | tag _ => exact ⟨_, finds Rules.recordPattern (by decide)⟩
  | madeUp _ _ _ => exact ⟨_, finds Rules.recordPattern (by decide)⟩
  | definition body defined =>
      exact (capturesAfter_definition (finds (Rules.typedefAround Rules.recordPattern) (by decide))
        bytes (by decide) body defined).2

/-- The action of a claimed record declares it under its name, with the captures between a tag and the
name of a type definition. -/
theorem returns_run_iff (site : RecordName bytes registry action cursor specifier name spelling before)
    {alphabet : Alphabet} {added : List (List Capture)}
    (finds : ∀ pattern, (pattern, action) ∈ Rules.shapeList → pattern.Finds alphabet none cursor)
    (adds : List.Forall₂ (Cursor.Adds bytes) specifier.fieldDeclarations added) :
    (action.run (some cursor) (cursor.capturesAfter bytes []).reverse).Returns registry () after ↔
      (emitRecord name spelling specifier.focus.isUnion added.flatten).Returns before () after := by
  cases site with
  | @tag _ tag tagged =>
      have captures := capturesAfter_record_of_adds (finds Rules.recordPattern (by decide)) adds []
      rw [captures]
      simp only [tagged, List.map_singleton, List.reverse_append, List.reverse_reverse,
        List.append_nil, List.reverse_singleton, List.singleton_append]
      change (declareRecord cursor _).Returns registry () after ↔ _
      rw [declareRecord_eq, declareSpecifier_of_tag (Cursor.hasName_of_tagged tagged) rfl]
      rfl
  | madeUp untagged onItsOwn made =>
      have captures := capturesAfter_record_of_adds (finds Rules.recordPattern (by decide)) adds []
      rw [captures]
      simp only [untagged, List.map_nil, List.reverse_nil, List.append_nil, List.reverse_reverse]
      change (declareRecord cursor _).Returns registry () after ↔ _
      rw [declareRecord_eq]
      exact returns_declareSpecifier_of_untagged (Cursor.hasName_of_untagged untagged) onItsOwn made
  | @definition _ specifier last body defined =>
      have found := finds (Rules.typedefAround Rules.recordPattern) (by decide)
      obtain ⟨captures, _, specifierFound⟩ :=
        capturesAfter_definition found bytes (by decide) body defined
      have between : (specifier.capturesAfter bytes []).reverse.drop
          (if specifier.focus.hasName then 1 else 0) = added.flatten :=
        bodyCaptures_of_adds specifierFound adds
      have spelled : cursor.focus.namedOfKind? ["struct_specifier", "union_specifier"]
          = some specifier.focus := by
        rw [Cursor.namedOfKind?_eq, body]
        rfl
      change (declareTypedefRecord cursor _).Returns registry () after ↔ _
      rw [captures, List.reverse_cons, declareTypedefRecord, spelled, List.getLast?_concat]
      dsimp only
      rw [List.dropLast_concat, between]
      rfl

end RecordName

namespace Rules

/-- The fields of a struct or a union survive from its tree to its declaration: if its declarations are
of the usual forms and its name is there and new, offering it to the default grammar adds exactly one
record under the name, with one field for each declared one, in document order. -/
theorem dispatch_declares_record {bytes : List UInt8} {cursor specifier : Cursor} {action : Action}
    {name spelling : String} {registry before : Registry} {shapes : List (List FieldShape)}
    (claimed : (table.claim? alphabet cursor).bind (·.entry.action) = some action)
    (site : RecordName bytes registry action cursor specifier name spelling before)
    (declares : List.Forall₂ (DeclaresFields bytes) specifier.fieldDeclarations shapes)
    (typed : ∀ shape ∈ shapes.flatten, shape.Typed)
    (named : name ≠ "") (new : before.isDeclared .types name = false) :
    ∃ captures after, (table.dispatch alphabet bytes Generation.runDefault cursor).Returns
        registry (some captures) after ∧
      after.emitted = registry.emitted.modify .types (· ++ [.record ⟨name, spelling,
        registry.currentHeader, specifier.focus.isUnion,
        shapes.flatten.mapIdx fun index shape => shape.field index⟩]) := by
  obtain ⟨claim, isClaim, taken⟩ := Option.bind_eq_some_iff.mp claimed
  obtain ⟨after, emitted, left⟩ := returns_emitRecord_of_fields (wellFormed_flatten declares) typed
    named new spelling specifier.focus.isUnion
  have finds : ∀ pattern, (pattern, action) ∈ shapeList → pattern.Finds alphabet none cursor :=
    fun _ => finds_of_claim isClaim taken
  obtain ⟨_, found⟩ := site.finds_specifier finds
  obtain ⟨_, _, _, _, declarations⟩ := fieldDeclarations_of_record found
  have adds := adds_of_declaresFields declares declarations
  rw [← flatten_map_captures] at emitted
  have ran := (site.returns_run_iff finds adds).mpr emitted
  rw [← captures_of_claim isClaim] at ran
  refine ⟨claim.found.captures bytes, after, ?_, ?_⟩
  · rw [Table.dispatch, isClaim]
    dsimp only
    rw [taken]
    exact ran.bind (Run.returns_pure_iff.mpr ⟨rfl, rfl⟩)
  · rw [left, site.emitted_eq.1, site.emitted_eq.2]

/-! ### A record with fields of every form -/

/-- The struct in `typedef struct R { int *a[2][N], b : 3; unsigned int : 4; struct S **p; } T;`. -/
def everyFormSpecifier : Tree :=
  .node ⟨"struct_specifier", 8, 73, some "type"⟩ [
    .node ⟨"type_identifier", 15, 16, some "name"⟩ [],
    .node ⟨"field_declaration_list", 17, 73, some "body"⟩ [
      .node ⟨"field_declaration", 19, 39, none⟩ [
        .node ⟨"primitive_type", 19, 22, some "type"⟩ [],
        .node ⟨"pointer_declarator", 23, 31, some "declarator"⟩ [
          .node ⟨"array_declarator", 24, 31, some "declarator"⟩ [
            .node ⟨"array_declarator", 24, 28, some "declarator"⟩ [
              .node ⟨"field_identifier", 24, 25, some "declarator"⟩ [],
              .node ⟨"number_literal", 26, 27, some "size"⟩ []],
            .node ⟨"identifier", 29, 30, some "size"⟩ []]],
        .node ⟨"field_identifier", 33, 34, some "declarator"⟩ [],
        .node ⟨"bitfield_clause", 35, 38, none⟩ [
          .node ⟨"number_literal", 37, 38, none⟩ []]],
      .node ⟨"field_declaration", 40, 57, none⟩ [
        .node ⟨"sized_type_specifier", 40, 52, some "type"⟩ [
          .node ⟨"primitive_type", 49, 52, some "type"⟩ []],
        .node ⟨"bitfield_clause", 53, 56, none⟩ [
          .node ⟨"number_literal", 55, 56, none⟩ []]],
      .node ⟨"field_declaration", 58, 71, none⟩ [
        .node ⟨"struct_specifier", 58, 66, some "type"⟩ [
          .node ⟨"type_identifier", 65, 66, some "name"⟩ []],
        .node ⟨"pointer_declarator", 67, 70, some "declarator"⟩ [
          .node ⟨"pointer_declarator", 68, 70, some "declarator"⟩ [
            .node ⟨"field_identifier", 69, 70, some "declarator"⟩ []]]]]]

/-- The type definition around it. -/
def everyFormDefinition : Document where
  bytes :=
    "typedef struct R { int *a[2][N], b : 3; unsigned int : 4; struct S **p; } T;".toUTF8.toList
  tree := .node ⟨"type_definition", 0, 76, none⟩
    [everyFormSpecifier, .node ⟨"type_identifier", 74, 75, some "declarator"⟩ []]
  hasError := false

/-- The pointer and the lengths of the first field stay with it, and the tag before the fields and the
name after them are read as none. -/
theorem dispatch_declares_record_everyForm :
    let definition := Cursor.root everyFormDefinition.tree
    let specifier : Cursor := ⟨everyFormSpecifier, [⟨everyFormDefinition.tree, 0⟩]⟩
    (table.claim? alphabet definition).bind (·.entry.action) = some .declareTypedefRecord ∧
      ∃ shapes, List.Forall₂ (DeclaresFields everyFormDefinition.bytes) specifier.fieldDeclarations
          shapes ∧
        (∀ shape ∈ shapes.flatten, shape.Typed) ∧
        ∃ captures after, (table.dispatch alphabet everyFormDefinition.bytes Generation.runDefault
            definition).Returns .empty (some captures) after ∧
          after.emitted.types = [.record ⟨"T", "T", "", false,
            [⟨"a", .pointer (.named "ctypes.c_int"), some "N * 2", none⟩,
              ⟨"b", .named "ctypes.c_int", none, some "3"⟩,
              ⟨"_pad2", .named "ctypes.c_uint", none, some "4"⟩,
              ⟨"p", .pointer (.pointer (.named "S")), none, none⟩]⟩] := by
  intro definition specifier
  have claimed : (table.claim? alphabet definition).bind (·.entry.action)
      = some .declareTypedefRecord := by
    rw [table_eq, alphabet_eq]
    decide +kernel
  have site : RecordName everyFormDefinition.bytes .empty .declareTypedefRecord definition specifier
      "T" "T" .empty := by
    let name : Cursor :=
      ⟨.node ⟨"type_identifier", 74, 75, some "declarator"⟩ [], [⟨everyFormDefinition.tree, 1⟩]⟩
    have spelled : name.textIn everyFormDefinition.bytes = "T" := by decide +kernel
    have bound : bindingName "T" = "T" := by decide +kernel
    have defined : RecordName everyFormDefinition.bytes .empty .declareTypedefRecord definition
        specifier (bindingName (name.textIn everyFormDefinition.bytes))
        (name.textIn everyFormDefinition.bytes) .empty := .definition rfl rfl
    rwa [spelled, bound] at defined
  have declares : ∃ shapes, List.Forall₂ (DeclaresFields everyFormDefinition.bytes)
      specifier.fieldDeclarations shapes ∧ (∀ shape ∈ shapes.flatten, shape.Typed) ∧
      shapes.flatten.mapIdx (fun index shape => shape.field index)
        = [⟨"a", .pointer (.named "ctypes.c_int"), some "N * 2", none⟩,
          ⟨"b", .named "ctypes.c_int", none, some "3"⟩,
          ⟨"_pad2", .named "ctypes.c_uint", none, some "4"⟩,
          ⟨"p", .pointer (.pointer (.named "S")), none, none⟩] := by
    apply Exists.intro
    constructor
    · apply List.Forall₂.cons
      · apply DeclaresFields.named rfl (by decide +kernel)
        apply DeclaresAll.field
        · apply Declares.pointer rfl rfl rfl
          apply Declares.arrays
          apply ArraysAround.array rfl rfl ⟨_, rfl, rfl⟩
          apply ArraysAround.array rfl rfl ⟨_, rfl, rfl⟩
          exact .name rfl
        · exact .bitField (.arrays (.name rfl)) rfl .nil
      · apply List.Forall₂.cons
        · exact .padding rfl (by decide +kernel) rfl rfl
        · apply List.Forall₂.cons
          · apply DeclaresFields.named rfl (by decide +kernel)
            apply DeclaresAll.field
            · apply Declares.pointer rfl rfl rfl
              apply Declares.pointer rfl rfl rfl
              exact .arrays (.name rfl)
            · exact .nil
          · exact .nil
    · decide +kernel
  obtain ⟨shapes, declares, typed, fields⟩ := declares
  obtain ⟨captures, after, returns, emitted⟩ :=
    dispatch_declares_record claimed site declares typed (by decide) rfl
  refine ⟨claimed, shapes, declares, typed, captures, after, returns, ?_⟩
  rw [emitted, fields]
  rfl

end Rules

end HeaderBindings
