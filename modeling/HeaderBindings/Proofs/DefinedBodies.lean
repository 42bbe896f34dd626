/-
Module: HeaderBindings.Proofs.DefinedBodies
Purpose: A type definition around a body captures what the body captures, and then the name that is
  defined; a struct or a union in it is declared under both of its names, with the same fields.
Main exports: Rules.bodyShapes, Rules.claim_of_finds, Cursor.tagText, Cursor.FirstFieldTyped,
  returns_emitRecord_of_free, bothRecords, Rules.definition_agrees_with_body
-/
import HeaderBindings.Proofs.ApartShapes
import HeaderBindings.Proofs.FunctionDeclarators

namespace HeaderBindings

open Pattern Run Spelling

/-! ### One pattern in two places -/

namespace Pattern

variable {cuts : Cutting} {enclosing other : Option Pattern} {pattern : Pattern} {cursor : Cursor}
  {found : Match}

/-- What is around a pattern counts only by the shape that the pattern takes from it. -/
theorem Reads.of_shape_eq (reads : Reads cuts enclosing pattern cursor found)
    (same : pattern.shape enclosing = pattern.shape other) : Reads cuts other pattern cursor found := by
  cases reads with
  | leaf accepts childless => exact .leaf accepts (same ▸ childless)
  | node accepts shaped cut children =>
      rw [same] at shaped cut children
      exact .node accepts shaped cut children

/-- A node that is found is read. -/
theorem Finds.exists_reads {alphabet : Alphabet} (finds : Finds alphabet enclosing pattern cursor) :
    ∃ found, Reads FirstCut enclosing pattern cursor found := by
  obtain ⟨_, _, stands, isSome⟩ := finds
  obtain ⟨found, isFound⟩ := Option.isSome_iff_exists.mp isSome
  exact ⟨found, stands.find?_eq_some_iff.mp isFound⟩

end Pattern

namespace Rules

/-- A node that a shape of the default grammar finds inside any other shape is claimed by it on its own,
unless the shape borrows children. -/
theorem claim_of_finds {later : Alphabet} {enclosing : Option Pattern} {pattern : Pattern}
    {action : Action} {cursor : Cursor} (isShape : (pattern, action) ∈ shapeList)
    (plain : pattern.head.recursive = false) (finds : pattern.Finds later enclosing cursor) :
    ∃ claim, table.claim? alphabet cursor = some claim ∧ claim.entry.matcher.pattern = pattern ∧
      claim.entry.action = some action := by
  obtain ⟨found, reads⟩ := finds.exists_reads
  have alone : Reads FirstCut none pattern cursor found :=
    reads.of_shape_eq ((shape_of_not_recursive plain).trans (shape_of_not_recursive plain).symm)
  exact claim_of_reads isShape alone

/-- The patterns of bodies, each with the action for a body on its own and the one for a body in a type
definition. -/
def bodyShapes : List (Pattern × Action × Action) :=
  [(recordPattern, .declareRecord, .declareTypedefRecord),
    (enumerationPattern, .declareEnumeration, .declareTypedefEnumeration)]

/-- What holds of the pattern of a body: it is registered alone and in a type definition, both of which
are told apart by kinds. -/
theorem bodyShape_cases : ∀ shape ∈ bodyShapes, (shape.1, shape.2.1) ∈ shapeList ∧
    (typedefAround shape.1, shape.2.2) ∈ shapeList ∧ shape.1.head.recursive = false ∧
    shape.1.head.quantifier = .one ∧ Unmixed [shape.1, leaf ["type_identifier"] .one] := by
  decide

end Rules

/-! ### The text of a tag -/

/-- The text that the tag of a specifier is captured with: its own, and the pointers of the node that is
captured after it. -/
def Cursor.tagText (bytes : List UInt8) (specifier tag : Cursor) : String :=
  tag.textIn bytes ++ pointersOf specifier.leaves.tail

/-- The first declaration of a field in a specifier has a type, as it has in every tree that comes from a
parser: the grammar of C has no declaration of a field without one. -/
def Cursor.FirstFieldTyped (specifier : Cursor) : Prop :=
  ∀ declaration ∈ specifier.fieldDeclarations.head?, declaration.ofKinds typeKinds ≠ []

instance (specifier : Cursor) : Decidable specifier.FirstFieldTyped :=
  inferInstanceAs (Decidable (∀ declaration ∈ specifier.fieldDeclarations.head?, _ ≠ []))

namespace Rules

variable {bytes : List UInt8} {alphabet : Alphabet} {enclosing : Option Pattern}
  {specifier tag : Cursor}

/-- The first capture of a struct or a union with a tag is that of the tag; the others are those of its
body. -/
theorem captures_of_taggedRecord (finds : recordPattern.Finds alphabet enclosing specifier)
    (tagged : specifier.ofKinds ["type_identifier"] = [tag]) :
    (specifier.capturesAfter bytes []).reverse
      = ⟨"type_identifier", specifier.tagText bytes tag⟩ :: specifier.bodyCaptures bytes := by
  obtain ⟨_, _, leaves, _, _⟩ :=
    leaves_of_listing finds (by decide) (by simp) (by decide) (by decide)
  have hasName := Cursor.hasName_of_tagged tagged
  obtain ⟨first, rest, others, isTag, inOrder, captured⟩ :=
    firstCapture_of_tagged bytes leaves hasName
  have kind : first.kind = "type_identifier" := List.mem_singleton.mp (Cursor.mem_ofKinds.mp isTag).2
  obtain rfl : first = tag := by simpa [tagged] using isTag
  rw [Cursor.bodyCaptures, if_pos hasName, captured, Cursor.tagText, inOrder, List.tail_cons, kind,
    List.drop_one, List.tail_cons]

/-- If the first declaration of a field has a type, the tag is captured with its own text: the type is
captured next, and it has no pointers. -/
theorem tagText_of_typed (finds : recordPattern.Finds alphabet enclosing specifier)
    (tagged : specifier.ofKinds ["type_identifier"] = [tag]) (typed : specifier.FirstFieldTyped) :
    specifier.tagText bytes tag = tag.textIn bytes := by
  obtain ⟨list, isList, leaves, _, entries⟩ :=
    leaves_of_listing finds (by decide) (by simp) (by decide) (by decide)
  rw [tagged, List.singleton_append] at leaves
  have parts : DeclarationParts [leaf ["type_qualifier"] .zeroOrMore] [] [fieldDeclarators] :=
    ⟨by decide, by decide, by decide, by decide, by decide⟩
  have none_ : pointersOf (list.named.flatMap Cursor.leaves) = "" := by
    cases inOrder : list.named with
    | nil => rfl
    | cons declaration rest =>
        obtain ⟨around, found⟩ := entries declaration (by simp [inOrder])
        have isDeclaration : declaration.kind = "field_declaration" := found.kind_eq rfl
        have isFirst : declaration ∈ specifier.fieldDeclarations.head? := by
          rw [Cursor.fieldDeclarations, isList, List.flatMap_singleton, Cursor.ofKinds, inOrder]
          simp [isDeclaration]
        obtain ⟨type, types, areTypes⟩ := List.exists_cons_of_ne_nil (typed declaration isFirst)
        obtain ⟨below, specifiers, _⟩ := leaves_of_declaration parts found rfl
          (by rw [isDeclaration]; decide) (by rw [isDeclaration]; decide)
        obtain ⟨_, plain⟩ := specifiers type (by simp [areTypes])
        rw [areTypes, List.map_cons, List.cons_append] at below
        simp [below, pointersOf, plain, Capture.stars]
  rw [Cursor.tagText, leaves, List.tail_cons, none_, String.append_empty]

end Rules

/-! ### Two records with the same fields -/

namespace Registry

variable {before after : Registry} {category : Category}

theorem Step.prefix_emitted (step : Step before after) :
    before.emitted.get category <+: after.emitted.get category := by
  cases step with
  | header name => exact List.prefix_rfl
  | made entry => exact List.prefix_rfl
  | @admitted declaration admits =>
      rw [emitted_takeIn]
      by_cases same : category = declaration.category
      · subst same
        rw [ByCategory.get_modify_self]
        exact List.prefix_append _ _
      · exact (ByCategory.get_modify_of_ne _ _ same).symm ▸ List.prefix_rfl

/-- Declarations are added after those that are there. -/
theorem Steps.prefix_emitted (steps : Steps before after) :
    before.emitted.get category <+: after.emitted.get category := by
  induction steps with
  | refl => exact List.prefix_rfl
  | tail _ step ih => exact ih.trans step.prefix_emitted

end Registry

/-- A record with a free name is declared with the fields that its captures spell, and its name is
reserved. -/
theorem returns_emitRecord_of_free {name spelling : String} {isUnion : Bool} {captures : List Capture}
    {before after : Registry} {value : Unit} (named : name ≠ "")
    (free : before.isDeclared .types name = false)
    (returns : (emitRecord name spelling isUnion captures).Returns before value after) :
    ∃ fields, (∃ start stop, (readFields [] captures).Returns start fields stop) ∧
      after.emitted.types = before.emitted.types
        ++ [.record ⟨name, spelling, before.currentHeader, isUnion, fields⟩] ∧
      after.declared.types = before.declared.types ++ [name] ∧
      after.currentHeader = before.currentHeader := by
  rcases returns_emitRecord_iff.mp returns with ⟨blocked, _⟩ | ⟨_, _, fields, between, read, rfl⟩
  · rw [free] at blocked
    exact absurd blocked (by simp [named])
  · obtain ⟨_, _, left⟩ := addsNoting_readFields read
    refine ⟨fields, ⟨_, _, read⟩, ?_⟩
    rw [left, Registry.referAll_frame]
    exact ⟨rfl, rfl, rfl⟩

/-- The record under the name of a type definition, and the one under the tag of the specifier in it. -/
def bothRecords (bytes : List UInt8) (header : String) (specifier tag name : Cursor)
    (fields : List Field) : List Declaration :=
  [.record ⟨bindingName (name.textIn bytes), name.textIn bytes, header, specifier.focus.isUnion, fields⟩,
    .record ⟨bindingName (tag.textIn bytes),
      (if specifier.focus.isUnion then "union " else "struct ") ++ tag.textIn bytes, header,
      specifier.focus.isUnion, fields⟩]

namespace Rules

variable {bytes : List UInt8} {definition specifier tag name : Cursor} {before after : Registry}

/-- A struct or a union with a tag that is offered is declared under the tag. -/
theorem returns_emitRecord_of_tagged {captures : Option (List Capture)}
    (claimed : Claims specifier .declareRecord)
    (tagged : specifier.ofKinds ["type_identifier"] = [tag]) (typed : specifier.FirstFieldTyped)
    (returns : (table.dispatch alphabet bytes Generation.runDefault specifier).Returns
      before captures after) :
    (emitRecord (bindingName (tag.textIn bytes))
      ((if specifier.focus.isUnion then "union " else "struct ") ++ tag.textIn bytes)
      specifier.focus.isUnion (specifier.bodyCaptures bytes)).Returns before () after := by
  obtain ⟨finds, ran⟩ := returns_run_of_dispatch claimed returns
  have isRecord := finds recordPattern (by decide)
  rw [captures_of_taggedRecord isRecord tagged, tagText_of_typed isRecord tagged typed] at ran
  change (declareRecord specifier _).Returns before () after at ran
  rw [declareRecord_eq, declareSpecifier_of_tag (Cursor.hasName_of_tagged tagged) rfl] at ran
  exact ran

/-- Going through a type definition around a struct or a union with a tag declares two records: the
definition comes first in the walk, and its specifier next. -/
theorem emitted_of_definition {start count : Nat}
    (claimed : Claims definition .declareTypedefRecord) (inOrder : definition.named = [specifier, name])
    (body : definition.ofKinds ["struct_specifier", "union_specifier"] = [specifier])
    (defined : definition.ofKinds ["type_identifier"] = [name])
    (bare : Claims specifier .declareRecord) (tagged : specifier.ofKinds ["type_identifier"] = [tag])
    (typed : specifier.FirstFieldTyped)
    (returns : (table.processNodes alphabet bytes Generation.runDefault start definition.walk).Returns
      before count after)
    (named : bindingName (name.textIn bytes) ≠ "")
    (tagNamed : bindingName (tag.textIn bytes) ≠ "")
    (differ : bindingName (tag.textIn bytes) ≠ bindingName (name.textIn bytes))
    (new : before.isDeclared .types (bindingName (name.textIn bytes)) = false)
    (tagNew : before.isDeclared .types (bindingName (tag.textIn bytes)) = false) :
    ∃ fields, before.emitted.types ++ bothRecords bytes before.currentHeader specifier tag name fields
      <+: after.emitted.types := by
  have walk : definition.walk
      = definition :: specifier :: (specifier.named.flatMap Cursor.walk ++ name.walk) := by
    rw [Cursor.walk_eq, inOrder, List.flatMap_cons, List.flatMap_singleton, Cursor.walk_eq specifier]
    rfl
  have pass := Table.pass_processNodes returns
  rw [walk, List.map_cons, List.map_cons] at pass
  cases pass with
  | @node _ middle _ _ _ _ _ ofDefinition pass =>
  cases pass with
  | @node _ next _ _ _ _ _ ofSpecifier rest =>
  obtain ⟨_, first⟩ := returns_emitRecord_of_definition claimed body defined ofDefinition
  have second := returns_emitRecord_of_tagged bare tagged typed ofSpecifier
  obtain ⟨fields, ⟨_, _, read⟩, emitted, declared, header⟩ :=
    returns_emitRecord_of_free named new first
  have stillNew : middle.isDeclared .types (bindingName (tag.textIn bytes)) = false := by
    have earlier : bindingName (tag.textIn bytes) ∉ before.declared.types := by
      simpa [Registry.isDeclared, ByCategory.get] using tagNew
    simp [Registry.isDeclared, ByCategory.get, declared, earlier, differ]
  obtain ⟨others, ⟨_, _, readAgain⟩, emittedNext, _, _⟩ :=
    returns_emitRecord_of_free tagNamed stillNew second
  obtain rfl : others = fields := by
    obtain ⟨_, fixed⟩ := fixed_readFields [] (specifier.bodyCaptures bytes)
    exact (fixed _ _ _ readAgain).trans (fixed _ _ _ read).symm
  have twice : next.emitted.types
      = before.emitted.types ++ bothRecords bytes before.currentHeader specifier tag name others := by
    rw [emittedNext, emitted, header, List.append_assoc]
    rfl
  refine ⟨others, ?_⟩
  rw [← twice]
  exact @Registry.Steps.prefix_emitted _ _ .types rest.steps

/-- A type definition that is claimed with its body agrees with the body: its specifier alone is claimed by
the pattern of the body, and the captures are those of this claim and then the one of the defined name. If
the body is that of a struct or a union with a tag, as parsers build it, going through the definition
declares it under both names, with the same fields. -/
theorem definition_agrees_with_body {pattern : Pattern} {bare withName : Action} {claim : Claim Action}
    (isBody : (pattern, bare, withName) ∈ bodyShapes)
    (claimed : table.claim? alphabet definition = some claim)
    (taken : claim.entry.action = some withName) :
    ∃ specifier name bareClaim, definition.named = [specifier, name] ∧ name.kind = "type_identifier" ∧
      table.claim? alphabet specifier = some bareClaim ∧ bareClaim.entry.matcher.pattern = pattern ∧
      bareClaim.entry.action = some bare ∧
      (∀ bytes, claim.found.captures bytes
        = bareClaim.found.captures bytes ++ [⟨"type_identifier", name.textIn bytes⟩]) ∧
      (withName = .declareTypedefRecord → specifier.FirstFieldTyped →
        ∀ bytes tag start before count after, specifier.ofKinds ["type_identifier"] = [tag] →
          (table.processNodes alphabet bytes Generation.runDefault start definition.walk).Returns
            before count after →
          bindingName (name.textIn bytes) ≠ "" → bindingName (tag.textIn bytes) ≠ "" →
          bindingName (tag.textIn bytes) ≠ bindingName (name.textIn bytes) →
          before.isDeclared .types (bindingName (name.textIn bytes)) = false →
          before.isDeclared .types (bindingName (tag.textIn bytes)) = false →
          ∃ fields, before.emitted.types
            ++ bothRecords bytes before.currentHeader specifier tag name fields
              <+: after.emitted.types) := by
  obtain ⟨isBare, isDefinition, plain, one, unmixed⟩ := bodyShape_cases _ isBody
  have finds : (typedefAround pattern).Finds alphabet none definition :=
    finds_of_claim claimed taken isDefinition
  obtain ⟨specifier, name, body, defined, _, around, found⟩ := leaves_of_definition finds one unmixed
  obtain ⟨bareClaim, isClaim, isPattern, isAction⟩ := claim_of_finds isBare plain found
  have shape : ((typedefAround pattern).shape none).children
      = [pattern, leaf ["type_identifier"] .one] := rfl
  have inOrder : definition.named = [specifier, name] := by
    simpa [body, defined] using (finds.siblings shape (by simp) unmixed).1
  have nameKind : name.kind = "type_identifier" :=
    List.mem_singleton.mp (Cursor.mem_ofKinds.mp (by rw [defined]; exact List.mem_singleton_self _)).2
  refine ⟨specifier, name, bareClaim, inOrder, nameKind, isClaim, isPattern, isAction, ?_, ?_⟩
  · intro bytes
    obtain ⟨captured, _⟩ := capturesAfter_definition finds bytes unmixed body defined
    rw [captures_of_claim claimed, captures_of_claim isClaim, captured, List.reverse_cons, Cursor.leaf,
      nameKind]
  · rintro rfl typed bytes tag start before count after tagged returns named tagNamed differ new tagNew
    obtain ⟨rfl, rfl⟩ : pattern = recordPattern ∧ bare = .declareRecord := by
      have only : ∀ shape ∈ bodyShapes, shape.2.2 = .declareTypedefRecord →
          shape.1 = recordPattern ∧ shape.2.1 = .declareRecord := by decide
      exact only _ isBody rfl
    have definitionClaims : Claims definition .declareTypedefRecord :=
      Option.bind_eq_some_iff.mpr ⟨claim, claimed, taken⟩
    have specifierClaims : Claims specifier .declareRecord :=
      Option.bind_eq_some_iff.mpr ⟨bareClaim, isClaim, isAction⟩
    exact emitted_of_definition definitionClaims inOrder body defined specifierClaims tagged typed returns
      named tagNamed differ new tagNew

/-! ### A struct under a tag and a defined name -/

/-- The type definition `typedef struct X { int a; } Y;`. -/
def typedFieldDefinition : Document where
  bytes := "typedef struct X { int a; } Y;".toUTF8.toList
  tree := .node ⟨"type_definition", 0, 30, none⟩ [
    .node ⟨"struct_specifier", 8, 27, some "type"⟩ [
      .node ⟨"type_identifier", 15, 16, some "name"⟩ [],
      .node ⟨"field_declaration_list", 17, 27, some "body"⟩ [
        .node ⟨"field_declaration", 19, 25, none⟩ [
          .node ⟨"primitive_type", 19, 22, some "type"⟩ [],
          .node ⟨"field_identifier", 23, 24, some "declarator"⟩ []]]],
    .node ⟨"type_identifier", 28, 29, some "declarator"⟩ []]
  hasError := false

/-- The struct in it. -/
def typedFieldSpecifier : Cursor :=
  let node := Cursor.root typedFieldDefinition.tree
  (node.ofKinds ["struct_specifier"]).headD node

/-- The tag of the struct. -/
def typedFieldTag : Cursor := (typedFieldSpecifier.ofKinds ["type_identifier"]).headD typedFieldSpecifier

/-- The name that is defined. -/
def typedFieldName : Cursor :=
  let node := Cursor.root typedFieldDefinition.tree
  (node.ofKinds ["type_identifier"]).headD node

/-- The registry after it. -/
def afterTypedField : Registry :=
  let fields : List Field := [⟨"a", .named "ctypes.c_int", none, none⟩]
  { Registry.empty with
    declared := ⟨[], ["Y", "X"], [], []⟩
    emitted := ⟨[], [.record ⟨"Y", "Y", "", false, fields⟩,
      .record ⟨"X", "struct X", "", false, fields⟩], [], []⟩ }

/-- The struct is declared under both names, with its field. -/
theorem definition_agrees_with_body_typedField :
    let bytes := typedFieldDefinition.bytes
    let definition := Cursor.root typedFieldDefinition.tree
    ∃ claim bareClaim fields, table.claim? alphabet definition = some claim ∧
      claim.entry.action = some .declareTypedefRecord ∧
      table.claim? alphabet typedFieldSpecifier = some bareClaim ∧
      claim.found.captures bytes
        = bareClaim.found.captures bytes ++ [⟨"type_identifier", "Y"⟩] ∧
      (table.process alphabet Generation.runDefault typedFieldDefinition).Returns .empty 2
        afterTypedField ∧
      bothRecords bytes "" typedFieldSpecifier typedFieldTag typedFieldName fields
        <+: afterTypedField.emitted.types := by
  intro bytes definition
  have claims : Claims definition .declareTypedefRecord := by decide +kernel
  have children : definition.named = [typedFieldSpecifier, typedFieldName] := rfl
  have returns : (table.process alphabet Generation.runDefault typedFieldDefinition).Returns .empty 2
      afterTypedField := by
    rw [table_eq, alphabet_eq]
    decide +kernel
  have isBody : (recordPattern, .declareRecord, .declareTypedefRecord) ∈ bodyShapes := by decide
  obtain ⟨claim, claimed, taken⟩ := Option.bind_eq_some_iff.mp claims
  obtain ⟨specifier, name, bareClaim, inOrder, _, isClaim, _, _, captured, declares⟩ :=
    definition_agrees_with_body isBody claimed taken
  rw [children] at inOrder
  obtain ⟨rfl, rfl⟩ : typedFieldSpecifier = specifier ∧ typedFieldName = name := by simpa using inOrder
  have spelled : typedFieldName.textIn bytes = "Y" := by decide +kernel
  have named : bindingName "Y" = "Y" ∧ bindingName "X" = "X" := by decide +kernel
  have tagText : typedFieldTag.textIn bytes = "X" := by decide +kernel
  obtain ⟨fields, emitted⟩ := declares rfl (by decide +kernel) bytes typedFieldTag 0 .empty 2
    afterTypedField rfl returns (by rw [spelled, named.1]; decide) (by rw [tagText, named.2]; decide)
    (by rw [spelled, tagText, named.1, named.2]; decide) rfl rfl
  refine ⟨claim, bareClaim, fields, claimed, taken, isClaim, ?_, returns, emitted⟩
  rw [captured, spelled]

end Rules

end HeaderBindings
