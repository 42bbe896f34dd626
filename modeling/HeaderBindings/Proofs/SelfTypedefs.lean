/-
Module: HeaderBindings.Proofs.SelfTypedefs
Purpose: What the name of a struct, a union or an enumeration stands for when a type definition gives the
  type its own tag as a further name.
Main exports: Cursor.AddsInFront, NamesBody, Record.HasBody, SelfTypedef,
  Session.Generated.last_binding_of_selfTypedef
-/
import HeaderBindings.Proofs.CapturedLeaves
import HeaderBindings.Proofs.LastBindings
import HeaderBindings.Proofs.OfferedNodes
import HeaderBindings.Proofs.RecordFields

namespace HeaderBindings

open Run Spelling

/-! ### Captures that stay -/

namespace Capture

theorem GoesOn.foldl {earlier latestFirst : List Capture} {bytes : List UInt8}
    {cursors : List Cursor} (goesOn : GoesOn earlier latestFirst) :
    GoesOn earlier (cursors.foldl (Cursor.capturesAfter bytes) latestFirst) := by
  induction cursors generalizing latestFirst with
  | nil => exact goesOn
  | cons first rest ih => exact ih (goesOn.capturesAfter bytes first)

end Capture

namespace Cursor

variable {bytes : List UInt8} {cursor : Cursor}

/-- A node whose captures come after all earlier ones, which they leave as they are. -/
def AddsInFront (bytes : List UInt8) (cursor : Cursor) : Prop :=
  ∀ latestFirst, Capture.GoesOn latestFirst (cursor.capturesAfter bytes latestFirst)

theorem AddsInFront.of_leaf
    (leaf : ∀ latestFirst, cursor.capturesAfter bytes latestFirst = cursor.leaf bytes :: latestFirst) :
    cursor.AddsInFront bytes := by
  intro latestFirst
  exact ⟨_, [], leaf latestFirst⟩

/-- It is the first child to be captured that decides. -/
theorem AddsInFront.of_children {silent rest : List Cursor} {first : Cursor}
    (uncaptured : Capture.isCaptured cursor.kind = false) (loud : cursor.kind ∉ Capture.silentKinds)
    (inOrder : cursor.named = silent ++ first :: rest)
    (areSilent : ∀ child ∈ silent, child.kind ∈ Capture.silentKinds)
    (adds : first.AddsInFront bytes) : cursor.AddsInFront bytes := by
  intro latestFirst
  rw [capturesAfter_children uncaptured loud, inOrder, List.foldl_append,
    foldl_capturesAfter_silent areSilent, List.foldl_cons]
  exact (adds latestFirst).foldl

end Cursor

/-! ### The capture of a tag -/

section

open Pattern Rules

variable {alphabet : Alphabet} {bytes : List UInt8} {enclosing : Option Pattern}

/-- A field declaration with a type adds its captures in front. -/
theorem addsInFront_of_fieldDeclaration {declaration : Cursor}
    (finds : fieldDeclarationPattern.Finds alphabet enclosing declaration)
    (typed : declaration.ofKinds typeKinds ≠ []) : declaration.AddsInFront bytes := by
  obtain ⟨inOrder, specifiers⟩ := inOrder_of_fieldDeclaration finds bytes
  have isDeclaration : declaration.kind = "field_declaration" := finds.kind_eq rfl
  obtain ⟨specifier, others, isFirst⟩ := List.exists_cons_of_ne_nil typed
  have adds : specifier.AddsInFront bytes := by
    intro latestFirst
    have inside : specifier ∈ declaration.ofKinds typeKinds := by simp [isFirst]
    exact ⟨_, [], (specifiers specifier inside latestFirst).2⟩
  rw [isFirst, List.append_assoc, List.cons_append] at inOrder
  exact .of_children (by rw [isDeclaration]; decide) (by rw [isDeclaration]; decide) inOrder
    declaration.silent_qualifiers adds

/-- A node that needs a child adds its captures in front, if its children do. -/
theorem Cursor.AddsInFront.of_finds {pattern first : Pattern} {items : List (List Pattern)}
    {cursor : Cursor} (finds : pattern.Finds alphabet enclosing cursor)
    (isFirst : childItems (pattern.shape enclosing).children = [first] :: items)
    (needed : ¬ first.head.quantifier.Allows 0)
    (uncaptured : Capture.isCaptured cursor.kind = false) (loud : cursor.kind ∉ Capture.silentKinds)
    (adds : ∀ child ∈ cursor.named, ∀ part ∈ (pattern.shape enclosing).children,
      part.Finds alphabet (some (pattern.shape enclosing)) child → child.AddsInFront bytes) :
    cursor.AddsInFront bytes := by
  have shaped : (pattern.shape enclosing).children ≠ [] := by
    intro empty
    rw [empty] at isFirst
    cases isFirst
  obtain ⟨⟨shares, cut⟩, found⟩ := finds.parts shaped
  rw [isFirst] at cut
  cases children : cursor.named with
  | nil =>
      rw [children] at cut
      exact absurd rfl (cut.ne_nil needed)
  | cons child rest =>
      have inside : child ∈ cursor.named := by simp [children]
      obtain ⟨part, isPart, partFinds⟩ := found child inside
      exact .of_children uncaptured loud (children.trans (List.nil_append _).symm) nofun
        (adds child inside part isPart partFinds)

/-- An enumerator adds its captures in front. -/
theorem addsInFront_of_enumerator {enumerator : Cursor}
    (finds : enumeratorPattern.Finds alphabet enclosing enumerator) :
    enumerator.AddsInFront bytes := by
  have isEnumerator : enumerator.kind = "enumerator" := finds.kind_eq rfl
  have captured : ∀ part ∈ enumeratorPattern.children, part.head.kinds ≠ [] ∧
      ∀ kind ∈ part.head.kinds, Capture.isCaptured kind = true ∧ kind ≠ "field_identifier" := by
    decide
  have isFirst : childItems (enumeratorPattern.shape enclosing).children
      = [leaf ["identifier"] .one] :: [enumeratorPattern.children.tail] := rfl
  apply Cursor.AddsInFront.of_finds finds isFirst (by simp [Quantifier.Allows])
    (by rw [isEnumerator]; decide) (by rw [isEnumerator]; decide)
  intro child inside part isPart partFinds
  obtain ⟨named, known⟩ := captured part isPart
  obtain ⟨isCaptured, notField⟩ := known _ (partFinds.kind_mem named)
  apply Cursor.AddsInFront.of_leaf
  intro latestFirst
  rw [Cursor.capturesAfter_captured isCaptured]
  apply Capture.add_of_plain notField
  intro _
  exact Cursor.pointerDepth_eq_zero inside (by simp [isEnumerator])

/-- The first capture of a specifier with a tag and a list of entries is that of the tag, if the entries
add theirs in front. -/
theorem captures_of_tagged {kinds : List String} {listKind : String} {part : Pattern}
    {specifier tag : Cursor}
    (finds : (branch kinds .one [leaf ["type_identifier"] .zeroOrOne,
      branch [listKind] .one [part]]).Finds alphabet enclosing specifier)
    (unmixed : Unmixed [leaf ["type_identifier"] .zeroOrOne, branch [listKind] .one [part]])
    (kinds_ne : kinds ≠ [])
    (plain : ∀ kind ∈ listKind :: kinds, Capture.isCaptured kind = false ∧
      kind ∉ Capture.silentKinds ∧
      kind ∉ ["function_declarator", "array_declarator", "pointer_declarator"])
    (needed : ¬ part.head.quantifier.Allows 0)
    (tagged : specifier.ofKinds ["type_identifier"] = [tag])
    (adds : ∀ list ∈ specifier.ofKinds [listKind], ∀ entry ∈ list.named, ∀ around,
      part.Finds alphabet around entry → entry.AddsInFront bytes) :
    ∃ rest, (specifier.capturesAfter bytes []).reverse = tag.leaf bytes :: rest := by
  have shape : ((branch kinds .one [leaf ["type_identifier"] .zeroOrOne,
      branch [listKind] .one [part]]).shape enclosing).children
      = [leaf ["type_identifier"] .zeroOrOne, branch [listKind] .one [part]] := rfl
  obtain ⟨sorted, parts⟩ := finds.siblings shape (by simp) unmixed
  obtain ⟨uncaptured, loud, notDeclarator⟩ := plain specifier.kind
    (List.mem_cons_of_mem _ (finds.kind_mem kinds_ne))
  obtain ⟨single, listFinds⟩ := parts (branch [listKind] .one [part]) (by simp)
  obtain ⟨list, isList⟩ : ∃ list, specifier.ofKinds [listKind] = [list] :=
    List.length_eq_one_iff.mp single
  have listMember : list ∈ specifier.ofKinds [listKind] := by simp [isList]
  have listKind_eq : list.kind = listKind :=
    List.mem_singleton.mp (Cursor.mem_ofKinds.mp listMember).2
  have listAdds : list.AddsInFront bytes := by
    obtain ⟨listUncaptured, listLoud, _⟩ := plain list.kind (by simp [listKind_eq])
    have isFirst : childItems ((branch [listKind] .one [part]).shape
        (some ((branch kinds .one [leaf ["type_identifier"] .zeroOrOne,
          branch [listKind] .one [part]]).shape enclosing))).children = [part] :: [] := by
      change childItems [part] = [[part]]
      simp [childItems]
    apply Cursor.AddsInFront.of_finds (listFinds list listMember) isFirst needed listUncaptured listLoud
    intro entry inside other isPart entryFinds
    obtain rfl := List.mem_singleton.mp isPart
    exact adds list listMember entry inside _ entryFinds
  have inOrder : specifier.named = [tag, list] := by
    simpa [tagged, isList] using sorted
  have isTag : tag ∈ specifier.ofKinds ["type_identifier"] := by simp [tagged]
  obtain ⟨latest, new, captured⟩ := listAdds [tag.leaf bytes]
  refine ⟨(latest :: new).reverse, ?_⟩
  rw [Cursor.capturesAfter_children uncaptured loud, inOrder, List.foldl_cons, List.foldl_cons,
    List.foldl_nil, capturesAfter_tag isTag notDeclarator, captured]
  simp

end

/-! ### Bodies -/

/-- A struct or a union with the body of a specifier: its fields are those that the captures of the body
spell. If the declarations in it are of the usual forms, these are one field for each declared one, in
document order. -/
structure Record.HasBody (record : Record) (bytes : List UInt8) (specifier : Cursor) : Prop where
  isUnion : record.isUnion = specifier.focus.isUnion
  spelled : ∃ before after,
    (readFields [] (specifier.bodyCaptures bytes)).Returns before record.fields after
  declared : ∀ shapes, List.Forall₂ (DeclaresFields bytes) specifier.fieldDeclarations shapes →
    (∀ shape ∈ shapes.flatten, shape.Typed) →
    record.fields = shapes.flatten.mapIdx fun index shape => shape.field index

/-- Fields that were read from the body of a claimed specifier are those that it declares. -/
theorem fields_eq_of_readFields {bytes : List UInt8} {specifier : Cursor} {alphabet : Alphabet}
    {enclosing : Option Pattern} {shapes : List (List FieldShape)} {fields : List Field}
    {before after : Registry} (found : Rules.recordPattern.Finds alphabet enclosing specifier)
    (declares : List.Forall₂ (DeclaresFields bytes) specifier.fieldDeclarations shapes)
    (typed : ∀ shape ∈ shapes.flatten, shape.Typed)
    (returns : (readFields [] (specifier.bodyCaptures bytes)).Returns before fields after) :
    fields = shapes.flatten.mapIdx fun index shape => shape.field index := by
  rw [bodyCaptures_eq found declares] at returns
  obtain ⟨_, read⟩ := returns_readFields_captures (wellFormed_flatten declares) typed [] before
  simpa using (read.unique returns).1

/-- The default grammar claims a node with an action. -/
def Rules.Claims (node : Cursor) (action : Action) : Prop :=
  (table.claim? alphabet node).bind (·.entry.action) = some action

instance (node : Cursor) (action : Action) : Decidable (Rules.Claims node action) :=
  let alphabet : Alphabet := ⟨Rules.kindList⟩
  let table := (Rules.shapeList.map (Rules.entryOf alphabet)).foldl Table.insert .empty
  decidable_of_iff ((table.claim? alphabet node).bind (·.entry.action) = some action) <| by
    rw [Rules.Claims, Rules.table_eq, Rules.alphabet_eq]

/-- How the body of a struct, a union or an enumeration gets its name: a claimed specifier has a tag, and a
type in each of its field declarations; or a claimed type definition is around it. -/
inductive NamesBody (bytes : List UInt8) : Action → Cursor → Cursor → String → Prop where
  | record {specifier tag : Cursor} (claimed : Rules.Claims specifier .declareRecord)
      (tagged : specifier.ofKinds ["type_identifier"] = [tag])
      (typed : ∀ declaration ∈ specifier.fieldDeclarations, declaration.ofKinds typeKinds ≠ []) :
      NamesBody bytes .declareRecord specifier specifier (bindingName (tag.textIn bytes))
  | definedRecord {definition specifier name : Cursor}
      (claimed : Rules.Claims definition .declareTypedefRecord)
      (body : definition.ofKinds ["struct_specifier", "union_specifier"] = [specifier])
      (defined : definition.ofKinds ["type_identifier"] = [name]) :
      NamesBody bytes .declareTypedefRecord definition specifier (bindingName (name.textIn bytes))
  | enumeration {specifier tag : Cursor} (claimed : Rules.Claims specifier .declareEnumeration)
      (tagged : specifier.ofKinds ["type_identifier"] = [tag]) :
      NamesBody bytes .declareEnumeration specifier specifier (bindingName (tag.textIn bytes))
  | definedEnumeration {definition specifier name : Cursor}
      (claimed : Rules.Claims definition .declareTypedefEnumeration)
      (body : definition.ofKinds ["enum_specifier"] = [specifier])
      (defined : definition.ofKinds ["type_identifier"] = [name]) :
      NamesBody bytes .declareTypedefEnumeration definition specifier (bindingName (name.textIn bytes))

/-- A claimed type definition that gives a struct, a union or an enumeration its own tag as a further
name. -/
inductive SelfTypedef (bytes : List UInt8) : Cursor → String → Prop where
  | names {definition specifier tag name : Cursor} {qualifiers : List Cursor}
      (claimed : Rules.Claims definition .declareAlias)
      (inOrder : definition.named = qualifiers ++ [specifier, name])
      (qualify : ∀ qualifier ∈ qualifiers, qualifier.kind = "type_qualifier")
      (isTagged : specifier.kind ∈ ["struct_specifier", "union_specifier", "enum_specifier"])
      (tagged : specifier.named = [tag]) (isTag : tag.kind = "type_identifier")
      (isName : name.kind = "type_identifier")
      (same : bindingName (tag.textIn bytes) = bindingName (name.textIn bytes)) :
      SelfTypedef bytes definition (bindingName (name.textIn bytes))

/-! ### What claimed nodes declare -/

theorem Registry.mem_emitted_emit (registry : Registry) (category : Category) (declaration : Declaration) :
    declaration ∈ (registry.emit category declaration).emitted.get category := by
  simp [Registry.emit]

namespace Rules

variable {bytes : List UInt8} {node specifier : Cursor} {action : Action} {name : String}
  {captures : Option (List Capture)} {before after : Registry}

theorem finds_of_claims (claimed : Claims node action) {pattern : Pattern}
    (isShape : (pattern, action) ∈ shapeList) : pattern.Finds alphabet none node := by
  obtain ⟨claim, isClaim, taken⟩ := Option.bind_eq_some_iff.mp claimed
  exact finds_of_claim isClaim taken isShape

/-- A claimed node that is offered is handed to the action of its claim, with the captures of the walk. -/
theorem returns_run_of_dispatch (claimed : Claims node action)
    (returns : (table.dispatch alphabet bytes Generation.runDefault node).Returns
      before captures after) :
    (∀ pattern, (pattern, action) ∈ shapeList → pattern.Finds alphabet none node) ∧
      (action.run (some node) (node.capturesAfter bytes []).reverse).Returns before () after := by
  obtain ⟨claim, isClaim, taken⟩ := Option.bind_eq_some_iff.mp claimed
  refine ⟨fun _ => finds_of_claim isClaim taken, ?_⟩
  rw [Table.dispatch, isClaim] at returns
  dsimp only at returns
  rw [taken] at returns
  obtain ⟨_, _, ran, rest⟩ := returns_bind_iff.mp returns
  obtain ⟨_, rfl⟩ := returns_pure_iff.mp rest
  rwa [captures_of_claim isClaim] at ran

/-- Where the action of a claim runs to its end, so does the offer of the claimed node. -/
theorem returns_dispatch_of_run (claimed : Claims node action)
    (ran : (action.run (some node) (node.capturesAfter bytes []).reverse).Returns before () after) :
    ∃ captures, (table.dispatch alphabet bytes Generation.runDefault node).Returns
      before (some captures) after := by
  obtain ⟨claim, isClaim, taken⟩ := Option.bind_eq_some_iff.mp claimed
  rw [← captures_of_claim isClaim] at ran
  refine ⟨claim.found.captures bytes, ?_⟩
  rw [Table.dispatch, isClaim]
  dsimp only
  rw [taken]
  exact ran.bind (returns_pure_iff.mpr ⟨rfl, rfl⟩)

/-- A type definition around a struct or a union that is offered declares the body under the name that it
defines. -/
theorem returns_emitRecord_of_definition {last : Cursor} (claimed : Claims node .declareTypedefRecord)
    (body : node.ofKinds ["struct_specifier", "union_specifier"] = [specifier])
    (defined : node.ofKinds ["type_identifier"] = [last])
    (returns : (table.dispatch alphabet bytes Generation.runDefault node).Returns
      before captures after) :
    (∃ enclosing, recordPattern.Finds alphabet enclosing specifier) ∧
      (emitRecord (bindingName (last.textIn bytes)) (last.textIn bytes) specifier.focus.isUnion
        (specifier.bodyCaptures bytes)).Returns before () after := by
  obtain ⟨finds, ran⟩ := returns_run_of_dispatch claimed returns
  have found := finds (typedefAround recordPattern) (by decide)
  obtain ⟨captured, isFound⟩ := capturesAfter_definition found bytes (by decide) body defined
  have spelled : node.focus.namedOfKind? ["struct_specifier", "union_specifier"]
      = some specifier.focus := by
    rw [Cursor.namedOfKind?_eq, body]
    rfl
  change (declareTypedefRecord node _).Returns before () after at ran
  rw [captured, List.reverse_cons, declareTypedefRecord, spelled, List.getLast?_concat] at ran
  dsimp only at ran
  rw [List.dropLast_concat] at ran
  exact ⟨isFound, ran⟩

/-- A struct or a union with a body that is offered is declared under its name, with this body. -/
theorem returns_emitRecord_of_namesBody
    (names : NamesBody bytes action node specifier name)
    (isRecord : action ∈ [.declareRecord, .declareTypedefRecord])
    (returns : (table.dispatch alphabet bytes Generation.runDefault node).Returns
      before captures after) :
    (∃ enclosing, recordPattern.Finds alphabet enclosing specifier) ∧
      ∃ spelling, (emitRecord name spelling specifier.focus.isUnion
        (specifier.bodyCaptures bytes)).Returns before () after := by
  cases names with
  | @record _ tag claimed tagged typed =>
      obtain ⟨finds, ran⟩ := returns_run_of_dispatch claimed returns
      have hasName := Cursor.hasName_of_tagged tagged
      have adds : ∀ list ∈ node.ofKinds ["field_declaration_list"], ∀ entry ∈ list.named,
          ∀ around, fieldDeclarationPattern.Finds alphabet around entry →
            entry.AddsInFront bytes := by
        intro list isList entry inside around entryFinds
        have isEntry : entry.kind ∈ ["field_declaration"] := entryFinds.kind_mem (by decide)
        apply addsInFront_of_fieldDeclaration entryFinds
        apply typed entry
        exact List.mem_flatMap.mpr ⟨list, isList, Cursor.mem_ofKinds.mpr ⟨inside, isEntry⟩⟩
      obtain ⟨rest, captured⟩ := captures_of_tagged (finds recordPattern (by decide)) (by decide)
        (by decide) (by decide) (by simp [fieldDeclarationPattern, Quantifier.Allows]) tagged adds
      have body : node.bodyCaptures bytes = rest := by
        rw [Cursor.bodyCaptures, captured, if_pos hasName, List.drop_one, List.tail_cons]
      rw [captured] at ran
      change (declareRecord node _).Returns before () after at ran
      rw [declareRecord_eq, declareSpecifier_of_tag hasName rfl] at ran
      rw [body]
      exact ⟨⟨_, finds recordPattern (by decide)⟩, _, ran⟩
  | definedRecord claimed body defined =>
      obtain ⟨found, emits⟩ := returns_emitRecord_of_definition claimed body defined returns
      exact ⟨found, _, emits⟩
  | enumeration _ _ => simp at isRecord
  | definedEnumeration _ _ _ => simp at isRecord

/-- An enumeration with a body that is offered is declared under its name. -/
theorem returns_emitEnumeration_of_namesBody
    (names : NamesBody bytes action node specifier name)
    (isEnumeration : action ∈ [.declareEnumeration, .declareTypedefEnumeration])
    (returns : (table.dispatch alphabet bytes Generation.runDefault node).Returns
      before captures after) :
    ∃ members, (emitEnumeration name specifier.focus members).Returns before () after := by
  cases names with
  | record _ _ _ => simp at isEnumeration
  | definedRecord _ _ _ => simp at isEnumeration
  | @enumeration _ tag claimed tagged =>
      obtain ⟨finds, ran⟩ := returns_run_of_dispatch claimed returns
      obtain ⟨rest, captured⟩ := captures_of_tagged (finds enumerationPattern (by decide))
        (by decide) (by decide) (by decide) (by simp [enumeratorPattern, Quantifier.Allows]) tagged
        fun _ _ _ _ _ found => addsInFront_of_enumerator found
      rw [captured] at ran
      change (declareEnumeration node _).Returns before () after at ran
      rw [declareEnumeration_eq, declareSpecifier_of_tag (Cursor.hasName_of_tagged tagged) rfl] at ran
      exact ⟨_, ran⟩
  | @definedEnumeration _ _ last claimed body defined =>
      obtain ⟨finds, ran⟩ := returns_run_of_dispatch claimed returns
      have found := finds (typedefAround enumerationPattern) (by decide)
      obtain ⟨captured, _, _⟩ := capturesAfter_definition found bytes (by decide) body defined
      have spelled : node.focus.namedOfKind? ["enum_specifier"] = some specifier.focus := by
        rw [Cursor.namedOfKind?_eq, body]
        rfl
      change (declareTypedefEnumeration node _).Returns before () after at ran
      rw [captured, List.reverse_cons, declareTypedefEnumeration, spelled,
        List.getLast?_concat] at ran
      exact ⟨_, ran⟩

/-- If no type has the name of the body, the record with this body is declared, in the current header. -/
theorem declares_record_of_namesBody (names : NamesBody bytes action node specifier name)
    (isRecord : action ∈ [.declareRecord, .declareTypedefRecord]) (named : name ≠ "")
    (free : before.isDeclared .types name = false)
    (returns : (table.dispatch alphabet bytes Generation.runDefault node).Returns
      before captures after) :
    ∃ record, .record record ∈ after.emitted.types ∧ record.name = name ∧
      record.header = before.currentHeader ∧ record.HasBody bytes specifier := by
  obtain ⟨⟨_, found⟩, spelling, emits⟩ := returns_emitRecord_of_namesBody names isRecord returns
  rcases returns_emitRecord_iff.mp emits with ⟨blocked, _⟩ | ⟨_, _, fields, between, read, left⟩
  · rw [free] at blocked
    exact absurd blocked (by simp [named])
  · have hasBody : Record.HasBody ⟨name, spelling, before.currentHeader, specifier.focus.isUnion,
        fields⟩ bytes specifier := {
      isUnion := rfl
      spelled := ⟨_, _, read⟩
      declared := fun _ declares typed => fields_eq_of_readFields found declares typed read }
    rw [left]
    exact ⟨_, between.mem_emitted_emit .types _, rfl, rfl, hasBody⟩

/-- An enumeration with the name of the body is declared. -/
theorem declares_enumeration_of_namesBody (consistent : before.Consistent)
    (names : NamesBody bytes action node specifier name)
    (isEnumeration : action ∈ [.declareEnumeration, .declareTypedefEnumeration]) (named : name ≠ "")
    (returns : (table.dispatch alphabet bytes Generation.runDefault node).Returns
      before captures after) :
    ∃ enumeration, .enumeration enumeration ∈ after.emitted.enumerations ∧
      enumeration.name = name := by
  obtain ⟨members, emits⟩ := returns_emitEnumeration_of_namesBody names isEnumeration returns
  rcases returns_emitEnumeration_iff.mp emits with ⟨blocked, rfl⟩ | ⟨_, _, _, between, _, left⟩
  · have reserved := blocked.resolve_left named
    obtain ⟨enumeration, declared, same⟩ :=
      (Module.isDeclared_enumerations_iff consistent).mp reserved
    exact ⟨enumeration, Module.mem_enumerations.mp declared, same⟩
  · rw [left]
    exact ⟨_, between.mem_emitted_emit .enumerations _, rfl⟩

/-- After a self typedef with a name was offered, a type with this name is declared. -/
theorem declares_type_of_selfTypedef (consistent : before.Consistent)
    (selfTypedef : SelfTypedef bytes node name) (named : name ≠ "")
    (returns : (table.dispatch alphabet bytes Generation.runDefault node).Returns
      before captures after) :
    ∃ declared ∈ after.emitted.types, declared.name = name := by
  cases selfTypedef with
  | @names specifier tag last qualifiers claimed inOrder qualify isTagged tagged isTag isName same =>
      obtain ⟨finds, ran⟩ := returns_run_of_dispatch claimed returns
      have isDefinition : node.kind = "type_definition" :=
        (finds typedefPattern (by decide)).kind_eq rfl
      have silent : ∀ qualifier ∈ qualifiers, qualifier.kind ∈ Capture.silentKinds := by
        intro qualifier member
        rw [qualify qualifier member]
        decide
      have loud : ∀ kind ∈ ["struct_specifier", "union_specifier", "enum_specifier"],
          Capture.isCaptured kind = false ∧ kind ∉ Capture.silentKinds ∧
          kind ∉ ["function_declarator", "array_declarator", "pointer_declarator"] := by decide
      obtain ⟨uncaptured, notSilent, plain⟩ := loud _ isTagged
      have below : tag ∈ specifier.ofKinds ["type_identifier"] :=
        Cursor.mem_ofKinds.mpr ⟨by simp [tagged], by simp [isTag]⟩
      have ofSpecifier : specifier.capturesAfter bytes [] = [tag.leaf bytes] := by
        rw [Cursor.capturesAfter_children uncaptured notSilent, tagged, List.foldl_cons,
          List.foldl_nil, capturesAfter_tag below plain]
      have inside : last ∈ node.ofKinds ["type_identifier"] :=
        Cursor.mem_ofKinds.mpr ⟨by simp [inOrder], by simp [isName]⟩
      have captured : (node.capturesAfter bytes []).reverse = [tag.leaf bytes, last.leaf bytes] := by
        rw [Cursor.capturesAfter_children (by rw [isDefinition]; decide)
            (by rw [isDefinition]; decide), inOrder, List.foldl_append,
          Cursor.foldl_capturesAfter_silent silent, List.foldl_cons, List.foldl_cons, List.foldl_nil,
          ofSpecifier, capturesAfter_tag inside (by simp [isDefinition])]
        rfl
      rw [captured] at ran
      change (declareAlias [tag.leaf bytes, last.leaf bytes]).Returns before () after at ran
      rw [declareAlias] at ran
      rcases returns_declaring_iff.mp ran with ⟨blocked, rfl⟩ | ⟨_, _, body⟩
      · exact (Module.isDeclared_types_iff consistent).mp (blocked.resolve_left named)
      · generalize splitPointer (tag.leaf bytes).text = parts at body
        obtain ⟨base, depth⟩ := parts
        dsimp only at body
        split at body
        · obtain ⟨_, between, _, left⟩ := returns_bind_iff.mp body
          obtain rfl := returns_emit_iff.mp left
          exact ⟨_, between.mem_emitted_emit .types _, rfl⟩
        · obtain ⟨_, _, _, rest⟩ := returns_bind_iff.mp body
          obtain ⟨_, between, _, left⟩ := returns_bind_iff.mp rest
          obtain rfl := returns_emit_iff.mp left
          exact ⟨_, between.mem_emitted_emit .types _, rfl⟩

end Rules

/-! ### The last binding of a name -/

namespace Session

open HeaderBindings.Module

/-- After a session that offers a self typedef with a name, a type with this name is declared. -/
theorem declared_of_selfTypedef {requests : List Request} {registry : Registry} {usual : Mode}
    {bytes : List UInt8} {definition : Cursor} {name : String}
    (generated : Generated Rules.table Rules.alphabet usual requests registry)
    (isOffered : .node bytes definition ∈ requests.flatMap Request.offers)
    (selfTypedef : SelfTypedef bytes definition name) (named : name ≠ "") :
    ∃ declared ∈ registry.emitted.types, declared.name = name := by
  have pass := generated.pass
  obtain ⟨before, after, parts⟩ := List.append_of_mem isOffered
  rw [parts] at pass
  obtain ⟨_, _, _, reached, returns, rest⟩ := pass.at_node
  obtain ⟨declared, emitted, isName⟩ :=
    Rules.declares_type_of_selfTypedef reached.consistent selfTypedef named returns
  have stays : declared ∈ registry.emitted.get .types := rest.steps.mem_emitted emitted
  exact ⟨declared, stays, isName⟩

/-- After a session that offers a body with a name and a self typedef with the same name, the name stands
at the end of the module for the type that was declared first under it. It is the record with the body
if the body is that of a struct or a union, and no type had the name when the body was offered. An
enumeration with the name is declared as well, but it is not what the name stands for. -/
theorem Generated.last_binding_of_selfTypedef {requests : List Request} {registry : Registry}
    {usual : Mode} {offered later : List Offer} {bytes other : List UInt8}
    {node specifier definition : Cursor} {action : Action} {name : String}
    (generated : Generated Rules.table Rules.alphabet usual requests registry)
    (offers : requests.flatMap Request.offers = offered ++ .node bytes node :: later)
    (names : NamesBody bytes action node specifier name)
    (isOffered : .node other definition ∈ requests.flatMap Request.offers)
    (selfTypedef : SelfTypedef other definition name) (named : name ≠ "")
    (library : Option String) :
    ∃ atBody declared, Offer.Pass Rules.table Rules.alphabet .empty offered atBody ∧
      declared ∈ registry.emitted.types ∧ declared.name = name ∧
      render registry library = textOf (layout registry library) ++ "\n" ∧
      BindsLast (layout registry library) (bindingLines declared) name ∧
      (∀ earlier ∈ atBody.emitted.types, earlier.name = name → declared = earlier) ∧
      (action ∈ [.declareRecord, .declareTypedefRecord] → atBody.isDeclared .types name = false →
        ∃ record, declared = .record record ∧ record.header = atBody.currentHeader ∧
          record.HasBody bytes specifier ∧ fieldsLines record <:+: layout registry library) ∧
      (action ∈ [.declareEnumeration, .declareTypedefEnumeration] →
        ∃ enumeration, .enumeration enumeration ∈ registry.emitted.enumerations ∧
          enumeration.name = name ∧
          ¬ BindsLast (layout registry library) (enumerationLines enumeration) name) := by
  have pass := generated.pass
  have consistent := pass.consistent
  obtain ⟨declared, emitted, rfl⟩ := declared_of_selfTypedef generated isOffered selfTypedef named
  rw [offers] at pass
  obtain ⟨atBody, _, next, reached, returns, rest⟩ := pass.at_node
  have stays : ∀ {category : Category} {declaration : Declaration},
      declaration ∈ next.emitted.get category → declaration ∈ registry.emitted.get category :=
    fun inNext => rest.steps.mem_emitted inNext
  have only : ∀ other ∈ next.emitted.get .types, other.name = declared.name → declared = other :=
    fun other inNext same => eq_of_name consistent emitted (stays inNext) same.symm
  refine ⟨atBody, declared, reached, emitted, rfl, render_eq registry library,
    bindsLast_of_emitted consistent emitted library, ?_, ?_, ?_⟩
  · intro earlier isEarlier same
    apply only earlier _ same
    exact (Table.steps_dispatch returns).mem_emitted isEarlier
  · intro isRecord free
    obtain ⟨record, inNext, same, here, hasBody⟩ :=
      Rules.declares_record_of_namesBody names isRecord named free returns
    have isDeclared := only (.record record) inNext same
    have stayed : .record record ∈ registry.emitted.get .types := stays inNext
    exact ⟨record, isDeclared, here, hasBody, fieldsLines_infix stayed library⟩
  · intro isEnumeration
    obtain ⟨enumeration, inNext, same⟩ :=
      Rules.declares_enumeration_of_namesBody reached.consistent names isEnumeration named returns
    have stayed : .enumeration enumeration ∈ registry.emitted.get .enumerations := stays inNext
    refine ⟨enumeration, stayed, same, ?_⟩
    rw [← same]
    exact not_bindsLast_enumeration consistent emitted same.symm library

/-! ### A body before its self typedef, and after it -/

/-- The struct in `struct X { int a; };`, from some byte on. -/
def bodyOfX (start : Nat) : Tree :=
  .node ⟨"struct_specifier", start, start + 19, none⟩ [
    .node ⟨"type_identifier", start + 7, start + 8, some "name"⟩ [],
    .node ⟨"field_declaration_list", start + 9, start + 19, some "body"⟩ [
      .node ⟨"field_declaration", start + 11, start + 17, none⟩ [
        .node ⟨"primitive_type", start + 11, start + 14, some "type"⟩ [],
        .node ⟨"field_identifier", start + 15, start + 16, some "declarator"⟩ []]]]

/-- The type definition `typedef struct X X;`, from some byte on. -/
def typedefOfX (start : Nat) : Tree :=
  .node ⟨"type_definition", start, start + 19, none⟩ [
    .node ⟨"struct_specifier", start + 8, start + 16, some "type"⟩ [
      .node ⟨"type_identifier", start + 15, start + 16, some "name"⟩ []],
    .node ⟨"type_identifier", start + 17, start + 18, some "declarator"⟩ []]

/-- The body, and then the type definition. -/
def bodyThenTypedef : Document where
  bytes := "struct X { int a; }; typedef struct X X;".toUTF8.toList
  tree := .node ⟨"translation_unit", 0, 40, none⟩ [bodyOfX 0, typedefOfX 21]
  hasError := false

/-- The record with the body. -/
def recordX : Record :=
  ⟨"X", "struct X", "x.h", false, [⟨"a", .named "ctypes.c_int", none, none⟩]⟩

/-- With the body first, the name stands for the record. -/
theorem Generated.last_binding_of_selfTypedef_bodyFirst :
    ∃ registry, Generated Rules.table Rules.alphabet .c [⟨"", "x.h", bodyThenTypedef⟩] registry ∧
      registry.emitted.types = [.record recordX] ∧
      BindsLast (layout registry none) (recordLines recordX) "X" ∧
      fieldsLines recordX <:+: layout registry none := by
  let root := Cursor.root bodyThenTypedef.tree
  let body : Cursor := ⟨bodyOfX 0, [⟨bodyThenTypedef.tree, 0⟩]⟩
  let definition : Cursor := ⟨typedefOfX 21, [⟨bodyThenTypedef.tree, 1⟩]⟩
  let requests : List Request := [] ++ [⟨"", "x.h", bodyThenTypedef⟩]
  have returns : (Generation.generate (m := Run) Rules.table Rules.alphabet Generation.runDefault .c
      "" "x.h" bodyThenTypedef).Returns .empty 2
      ⟨"x.h", ["x.h"], ⟨[], ["X"], [], []⟩, ⟨[], [.record recordX], [], []⟩, [], []⟩ := by
    rw [Rules.table_eq, Rules.alphabet_eq]
    decide +kernel
  have generated : Generated Rules.table Rules.alphabet .c requests _ := .more .nothing returns
  have names : NamesBody bodyThenTypedef.bytes .declareRecord body body "X" := by
    let tag : Cursor := ⟨.node ⟨"type_identifier", 7, 8, some "name"⟩ [],
      [⟨body.focus, 0⟩, ⟨bodyThenTypedef.tree, 0⟩]⟩
    have isX : bindingName (tag.textIn bodyThenTypedef.bytes) = "X" := by decide +kernel
    rw [← isX]
    apply NamesBody.record (by decide +kernel) rfl
    intro declaration member
    obtain rfl := List.mem_singleton.mp member
    exact List.cons_ne_nil _ _
  have selfTypedef : SelfTypedef bodyThenTypedef.bytes definition "X" := by
    let name : Cursor := ⟨.node ⟨"type_identifier", 38, 39, some "declarator"⟩ [],
      [⟨definition.focus, 1⟩, ⟨bodyThenTypedef.tree, 1⟩]⟩
    have isX : bindingName (name.textIn bodyThenTypedef.bytes) = "X" := by decide +kernel
    rw [← isX]
    exact .names (by decide +kernel) (List.nil_append _).symm nofun (by decide) rfl rfl rfl
      (by decide +kernel)
  have offers : requests.flatMap Request.offers
      = [.header "x.h", .node bodyThenTypedef.bytes root]
        ++ .node bodyThenTypedef.bytes body
          :: (root.walk.drop 2).map (.node bodyThenTypedef.bytes) := rfl
  have isOffered : .node bodyThenTypedef.bytes definition ∈ requests.flatMap Request.offers :=
    List.mem_of_getElem? (i := 8) rfl
  obtain ⟨atBody, declared, reached, emitted, _, _, last, _, ofRecord, _⟩ :=
    Generated.last_binding_of_selfTypedef generated offers names isOffered selfTypedef (by decide) none
  obtain rfl := List.mem_singleton.mp emitted
  have free : atBody.isDeclared .types "X" = false := by
    have unclaimed : Rules.table.claim? Rules.alphabet root = none := by
      apply Table.claim?_of_not_hasKind
      rw [Rules.table_eq]
      decide +kernel
    cases reached with
    | header later =>
        cases later with
        | node dispatched done =>
            cases done
            rw [Table.dispatch, unclaimed] at dispatched
            obtain ⟨_, rfl⟩ := returns_pure_iff.mp dispatched
            rfl
  obtain ⟨record, same, _, _, fields⟩ := ofRecord (by simp) free
  cases same
  exact ⟨_, generated, rfl, last, fields⟩

/-- The enumeration in `enum E { A };`, from byte 41 on. -/
def bodyOfE : Tree :=
  .node ⟨"enum_specifier", 41, 53, none⟩ [
    .node ⟨"type_identifier", 46, 47, some "name"⟩ [],
    .node ⟨"enumerator_list", 48, 53, some "body"⟩ [
      .node ⟨"enumerator", 50, 51, none⟩ [.node ⟨"identifier", 50, 51, some "name"⟩ []]]]

/-- The type definition `typedef enum E E;`, from byte 55 on. -/
def typedefOfE : Tree :=
  .node ⟨"type_definition", 55, 72, none⟩ [
    .node ⟨"enum_specifier", 63, 69, some "type"⟩ [
      .node ⟨"type_identifier", 68, 69, some "name"⟩ []],
    .node ⟨"type_identifier", 70, 71, some "declarator"⟩ []]

/-- A struct after its type definition, and an enumeration before its own. -/
def typedefAroundBodies : Document where
  bytes := "typedef struct X X; struct X { int a; }; enum E { A }; typedef enum E E;".toUTF8.toList
  tree := .node ⟨"translation_unit", 0, 72, none⟩ [typedefOfX 0, bodyOfX 20, bodyOfE, typedefOfE]
  hasError := false

/-- The opaque type that the first type definition declares. -/
def opaqueX : Alias := ⟨"X", opaqueTarget, "x.h", true⟩

/-- The opaque type that the second type definition declares. -/
def opaqueE : Alias := ⟨"E", opaqueTarget, "x.h", true⟩

/-- The enumeration with the body. -/
def enumerationE : Enumeration := ⟨"E", "x.h", [⟨"A", "0"⟩]⟩

/-- With the type definition first, the name stands for an opaque type, and there is no record. Whatever
comes first, the name of an enumeration stands for an opaque type. -/
theorem not_last_binding_of_body :
    let bytes := typedefAroundBodies.bytes
    let offers := Request.offers ⟨"", "x.h", typedefAroundBodies⟩
    (∃ body definition, NamesBody bytes .declareRecord body body "X" ∧
        SelfTypedef bytes definition "X" ∧
        .node bytes body ∈ offers ∧ .node bytes definition ∈ offers) ∧
      (∃ body definition, NamesBody bytes .declareEnumeration body body "E" ∧
        SelfTypedef bytes definition "E" ∧
        .node bytes body ∈ offers ∧ .node bytes definition ∈ offers) ∧
      ∃ registry,
        Generated Rules.table Rules.alphabet .c [⟨"", "x.h", typedefAroundBodies⟩] registry ∧
        registry.emitted.types = [.typeAlias opaqueX, .typeAlias opaqueE] ∧
        BindsLast (layout registry none) (opaqueLines opaqueX) "X" ∧
        registry.emitted.enumerations = [.enumeration enumerationE] ∧
        BindsLast (layout registry none) (opaqueLines opaqueE) "E" ∧
        ¬ BindsLast (layout registry none) (enumerationLines enumerationE) "E" := by
  intro bytes offers
  have returns : (Generation.generate (m := Run) Rules.table Rules.alphabet Generation.runDefault .c
      "" "x.h" typedefAroundBodies).Returns .empty 4
      ⟨"x.h", ["x.h"], ⟨["A"], ["X", "E"], ["E"], []⟩,
        ⟨[], [.typeAlias opaqueX, .typeAlias opaqueE], [.enumeration enumerationE], []⟩, [], []⟩ := by
    rw [Rules.table_eq, Rules.alphabet_eq]
    decide +kernel
  have generated : Generated Rules.table Rules.alphabet .c ([] ++ [⟨"", "x.h", typedefAroundBodies⟩])
      _ := .more .nothing returns
  have consistent := generated.pass.consistent
  have lastX := bindsLast_of_emitted consistent List.mem_cons_self none
  have declaredE := List.mem_cons_of_mem (Declaration.typeAlias opaqueX)
    (List.mem_singleton_self (Declaration.typeAlias opaqueE))
  have lastE := bindsLast_of_emitted consistent declaredE none
  have sameName : (Declaration.typeAlias opaqueE).name = enumerationE.name := rfl
  have notE := not_bindsLast_enumeration consistent declaredE sameName none
  refine ⟨⟨⟨bodyOfX 20, [⟨typedefAroundBodies.tree, 1⟩]⟩,
      ⟨typedefOfX 0, [⟨typedefAroundBodies.tree, 0⟩]⟩, ?_, ?_, ?_, ?_⟩,
    ⟨⟨bodyOfE, [⟨typedefAroundBodies.tree, 2⟩]⟩,
      ⟨typedefOfE, [⟨typedefAroundBodies.tree, 3⟩]⟩, ?_, ?_, ?_, ?_⟩,
    _, generated, rfl, lastX, rfl, lastE, notE⟩
  · let tag : Cursor := ⟨.node ⟨"type_identifier", 27, 28, some "name"⟩ [],
      [⟨bodyOfX 20, 0⟩, ⟨typedefAroundBodies.tree, 1⟩]⟩
    have isX : bindingName (tag.textIn bytes) = "X" := by decide +kernel
    rw [← isX]
    apply NamesBody.record (by decide +kernel) rfl
    intro declaration member
    obtain rfl := List.mem_singleton.mp member
    exact List.cons_ne_nil _ _
  · let name : Cursor := ⟨.node ⟨"type_identifier", 17, 18, some "declarator"⟩ [],
      [⟨typedefOfX 0, 1⟩, ⟨typedefAroundBodies.tree, 0⟩]⟩
    have isX : bindingName (name.textIn bytes) = "X" := by decide +kernel
    rw [← isX]
    exact .names (by decide +kernel) (List.nil_append _).symm nofun (by decide) rfl rfl rfl
      (by decide +kernel)
  · exact List.mem_of_getElem? (i := 6) rfl
  · exact List.mem_of_getElem? (i := 2) rfl
  · let tag : Cursor := ⟨.node ⟨"type_identifier", 46, 47, some "name"⟩ [],
      [⟨bodyOfE, 0⟩, ⟨typedefAroundBodies.tree, 2⟩]⟩
    have isE : bindingName (tag.textIn bytes) = "E" := by decide +kernel
    rw [← isE]
    exact .enumeration (by decide +kernel) rfl
  · let name : Cursor := ⟨.node ⟨"type_identifier", 70, 71, some "declarator"⟩ [],
      [⟨typedefOfE, 1⟩, ⟨typedefAroundBodies.tree, 3⟩]⟩
    have isE : bindingName (name.textIn bytes) = "E" := by decide +kernel
    rw [← isE]
    exact .names (by decide +kernel) (List.nil_append _).symm nofun (by decide) rfl rfl rfl
      (by decide +kernel)
  · exact List.mem_of_getElem? (i := 12) rfl
  · exact List.mem_of_getElem? (i := 17) rfl

end Session

end HeaderBindings
