/-
Module: HeaderBindings.Proofs.UntaggedSpecifiers
Purpose: When a specifier without tag is declared on its own: exactly if none before it has the same sort
  and span in a source that was generated under the same header.
Main exports: Table.untaggedKey?, Offer.keys, Registry.RemembersKeys, Offer.Pass.remembersKeys,
  Session.Generated.untagged_declared_iff, Session.untagged_lost_sameSpan
-/
import HeaderBindings.Proofs.AppendedDeclarations
import HeaderBindings.Proofs.OfferedNodes
import HeaderBindings.Proofs.SelfTypedefs

namespace HeaderBindings

open Run

variable {before after registry : Registry} {table : Table Action} {alphabet : Alphabet}

/-! ### What a name is made up for -/

/-- What the name of a specifier without tag is made up for under a header; none if the specifier has a tag
or is directly under a type definition. -/
def Action.untaggedKey? (action : Action) (header : String) (node : Cursor) : Option AnonymousKey :=
  if node.focus.hasName || node.underTypedef then none
  else match action with
    | .declareRecord =>
        some ⟨.types, if node.focus.isUnion then "AnonUnion" else "AnonStruct", header, node.spanKey⟩
    | .declareEnumeration => some ⟨.enumerations, "AnonEnum", header, node.spanKey⟩
    | _ => none

/-- The same for the action that claims a node, if there is one. -/
def Table.untaggedKey? (table : Table Action) (alphabet : Alphabet) (header : String) (node : Cursor) :
    Option AnonymousKey :=
  ((table.claim? alphabet node).bind (·.entry.action)).bind fun action =>
    action.untaggedKey? header node

theorem Table.category_of_untaggedKey? {header : String} {node : Cursor} {key : AnonymousKey}
    (untagged : table.untaggedKey? alphabet header node = some key) : key.category ≠ .constants := by
  obtain ⟨action, _, isKey⟩ := Option.bind_eq_some_iff.mp untagged
  unfold Action.untaggedKey? at isKey
  split at isKey
  · cases isKey
  · cases action <;> cases isKey <;> simp

/-- What the names of the specifiers without tag among offers are made up for, one after another. -/
def Offer.keys (table : Table Action) (alphabet : Alphabet) : String → List Offer → List AnonymousKey
  | _, [] => []
  | _, .header name :: rest => keys table alphabet name rest
  | current, .node _ cursor :: rest =>
      (table.untaggedKey? alphabet current cursor).toList ++ keys table alphabet current rest

/-- The header under which a source is generated after offers. -/
def Offer.headerAfter (current : String) : List Offer → String
  | [] => current
  | .header name :: rest => headerAfter name rest
  | .node _ _ :: rest => headerAfter current rest

/-- What a name is made up for under a header, if it is. -/
def Naming.key? (header : String) : Naming → Option AnonymousKey
  | given _ _ => none
  | madeUp category stem key => some ⟨category, stem, header, key⟩

/-- A name is made up exactly for the specifiers without tag. -/
theorem Action.untaggedKey?_eq (action : Action) (header : String) (node : Cursor)
    (captures : List Capture) :
    action.untaggedKey? header node = (action.naming? (some node) captures).bind (·.key? header) := by
  have specifier : ∀ category stem,
      (node.specifierNaming? category stem captures).bind (·.key? header)
        = if node.focus.hasName || node.underTypedef then none
          else some ⟨category, stem, header, node.spanKey⟩ := by
    intro category stem
    unfold Cursor.specifierNaming?
    cases node.focus.hasName with
    | true => cases captures <;> rfl
    | false => cases node.underTypedef <;> rfl
  have definition : ∀ category kinds,
      (node.definitionNaming? category kinds captures).bind (·.key? header) = none := by
    intro category kinds
    unfold Cursor.definitionNaming?
    split
    · cases captures.getLast? <;> rfl
    · rfl
  cases action with
  | declareRecord => exact (specifier _ _).symm
  | declareEnumeration => exact (specifier _ _).symm
  | declareTypedefRecord | declareTypedefEnumeration =>
      simp only [untaggedKey?, ite_self, naming?, definition]
  | defineConstant =>
      simp only [untaggedKey?, ite_self]
      rcases captures with _ | ⟨first, _ | ⟨second, rest⟩⟩
      · rfl
      · rfl
      · rw [naming?]
        cases Spelling.literal? second.text <;> rfl
  | declareAlias | declareFunction =>
      simp only [untaggedKey?, ite_self]
      rcases captures with _ | ⟨first, _ | ⟨second, rest⟩⟩ <;> rfl

/-- Offering a node declares as the naming says of the action that claims it. -/
theorem Table.exists_declaresAs_dispatch (table : Table Action) (alphabet : Alphabet)
    (bytes : List UInt8) (node : Cursor) :
    ∃ naming? step, DeclaresAs naming? step ∧
      (∀ header, table.untaggedKey? alphabet header node = naming?.bind (·.key? header)) ∧
      ∀ {before captures after},
        (table.dispatch alphabet bytes Generation.runDefault node).Returns before captures after →
        step.Returns before () after := by
  cases claimed : (table.claim? alphabet node).bind (·.entry.action) with
  | none =>
      refine ⟨none, pure (), .nothing .pure, fun header => ?_, fun returns => ?_⟩
      · rw [untaggedKey?, claimed]
        rfl
      · exact returns_pure_iff.mpr ⟨rfl, Table.eq_of_unclaimed claimed returns⟩
  | some action =>
      obtain ⟨claim, isClaim, taken⟩ := Option.bind_eq_some_iff.mp claimed
      refine ⟨_, _, action.declaresAs (some node) (claim.found.captures bytes), fun header => ?_,
        fun returns => ?_⟩
      · rw [untaggedKey?, claimed, ← action.untaggedKey?_eq]
        rfl
      · rw [Table.dispatch, isClaim] at returns
        dsimp only at returns
        rw [taken] at returns
        obtain ⟨_, _, ran, rest⟩ := returns_bind_iff.mp returns
        obtain ⟨_, rfl⟩ := returns_pure_iff.mp rest
        exact ran

/-! ### What is remembered -/

theorem Run.DeclaresUnder.anonymous_eq {category : Category} {name : String}
    {made : Registry → Declaration} {step : Run Unit} {value : Unit}
    (declares : DeclaresUnder category name made step) (returns : step.Returns before value after) :
    after.anonymous = before.anonymous := by
  rcases declares.takesIn returns with ⟨_, rfl⟩ | ⟨_, rfl⟩
  · rfl
  · rw [Registry.takeIn_eq]

namespace Run.DeclaresAs

variable {naming? : Option Naming} {step : Run Unit} {value : Unit}

theorem currentHeader_eq (declares : DeclaresAs naming? step)
    (returns : step.Returns before value after) : after.currentHeader = before.currentHeader := by
  rcases declares.appends returns with ⟨_, rfl⟩ | ⟨_, _, _, _, _, _, _, _, _, _, same⟩
  · rfl
  · exact same

theorem anonymous_eq (declares : DeclaresAs naming? step) (returns : step.Returns before value after)
    (given : naming?.bind (·.key? before.currentHeader) = none) :
    after.anonymous = before.anonymous := by
  cases declares with
  | nothing changesNothing => rw [changesNothing _ _ _ returns]
  | given made declares => exact declares.anonymous_eq returns
  | madeUp declares => cases given

/-- A name that is made up is remembered; nothing else is, besides what was. -/
theorem anonymous_of_madeUp {category : Category} {stem : String} {key : List Int}
    (declares : DeclaresAs (some (.madeUp category stem key)) step)
    (returns : step.Returns before value after) :
    after.anonymous = (before.uniqueName category stem (some key)).2.anonymous := by
  cases declares with
  | madeUp declares =>
      obtain ⟨name, between, isMade, declared⟩ := returns_bind_iff.mp returns
      obtain ⟨_, declaresName⟩ := declares name
      rw [declaresName.anonymous_eq declared, ← returns_modifyGet_iff.mp isMade]

end Run.DeclaresAs

/-- A registry remembers a name for each of some keys and no other; the names are different, and each is
declared in the category and under the header of its key. -/
structure Registry.RemembersKeys (registry : Registry) (known : List AnonymousKey) : Prop
    extends registry.DistinctNames where
  remembered : ∀ key, key ∈ registry.anonymous.map (·.1) ↔ key ∈ known
  reserved : ∀ entry ∈ registry.anonymous, registry.isDeclared entry.1.category entry.2 = true
  declared : ∀ entry ∈ registry.anonymous, ∃ declaration ∈ registry.emitted.get entry.1.category,
    declaration.name = entry.2 ∧ declaration.header = entry.1.header

theorem Registry.mem_emitted_of_appends {naming : Naming} (appended : before.Appends after naming) :
    ∃ declaration ∈ after.emitted.get naming.category,
      declaration.name = naming.name before ∧ declaration.header = before.currentHeader := by
  obtain ⟨declaration, _, isName, here, emitted, _⟩ := appended
  refine ⟨declaration, ?_, isName, here⟩
  rw [emitted, ByCategory.get_modify_self]
  exact List.mem_append_right _ List.mem_cons_self

/-- What a specifier without tag gets where some keys are known: a name for its key, under which it is
declared on its own if the key is new; otherwise nothing changes. -/
structure Registry.Receives (before after : Registry) (known : List AnonymousKey) (key : AnonymousKey)
    (name : String) : Prop where
  named : (before.uniqueName key.category key.stem (some key.key)).1 = name
  declares : key ∉ known → before.Appends after (.given key.category name)
  repeats : key ∈ known → after = before

namespace Registry.RemembersKeys

variable {known : List AnonymousKey}

theorem empty : Registry.empty.RemembersKeys [] where
  toDistinctNames := distinctNames_empty
  remembered _ := Iff.rfl
  reserved _ member := nomatch member
  declared _ member := nomatch member

theorem beginHeader (remembers : registry.RemembersKeys known) (header : String) :
    (registry.beginHeader header).RemembersKeys known :=
  ⟨⟨remembers.keys, remembers.names⟩, remembers.remembered, remembers.reserved, remembers.declared⟩

/-- Steps that make up no name change nothing of this. -/
theorem of_steps (remembers : before.RemembersKeys known) (steps : Registry.Steps before after)
    (same : after.anonymous = before.anonymous) : after.RemembersKeys known where
  toDistinctNames := ⟨same ▸ remembers.keys, same ▸ remembers.names⟩
  remembered := same ▸ remembers.remembered
  reserved entry member := steps.isDeclared (remembers.reserved entry (same ▸ member))
  declared entry member := by
    obtain ⟨declaration, emitted, rest⟩ := remembers.declared entry (same ▸ member)
    exact ⟨declaration, steps.mem_emitted emitted, rest⟩

/-- A name that is remembered is made up again and blocked, so nothing changes. -/
theorem eq_of_known {category : Category} {stem name : String} {key : List Int} {step : Run Unit}
    {value : Unit} (remembers : before.RemembersKeys known)
    (member : (⟨category, stem, before.currentHeader, key⟩, name) ∈ before.anonymous)
    (made : (before.uniqueName category stem (some key)).1 = name)
    (declares : DeclaresAs (some (.madeUp category stem key)) step)
    (returns : step.Returns before value after) : after = before := by
  have blocked : (Naming.madeUp category stem key).Blocked before := by
    rw [Naming.Blocked, Naming.name, made]
    exact Or.inr (remembers.reserved _ member)
  exact (returns.unique (declares.returns_of_blocked blocked)).2.symm

/-- A name that is declared and remembered joins those that were. -/
theorem concat {key : AnonymousKey} {name : String} (remembers : before.RemembersKeys known)
    (steps : Registry.Steps before after) (distinct : after.DistinctNames)
    (noted : after.anonymous = before.anonymous ++ [(key, name)])
    (reserved : after.isDeclared key.category name = true)
    (declared : ∃ declaration ∈ after.emitted.get key.category,
      declaration.name = name ∧ declaration.header = key.header) :
    after.RemembersKeys (known ++ [key]) where
  toDistinctNames := distinct
  remembered other := by
    rw [noted, List.map_append, List.map_singleton, List.mem_append, List.mem_append,
      remembers.remembered]
  reserved entry member := by
    rw [noted, List.mem_append, List.mem_singleton] at member
    rcases member with earlier | rfl
    · exact steps.isDeclared (remembers.reserved entry earlier)
    · exact reserved
  declared entry member := by
    rw [noted, List.mem_append, List.mem_singleton] at member
    rcases member with earlier | rfl
    · obtain ⟨declaration, emitted, rest⟩ := remembers.declared entry earlier
      exact ⟨declaration, steps.mem_emitted emitted, rest⟩
    · exact declared

/-- A key that is known already adds nothing. -/
theorem concat_known {key : AnonymousKey} (remembers : registry.RemembersKeys known)
    (isKnown : key ∈ known) : registry.RemembersKeys (known ++ [key]) where
  toDistinctNames := remembers.toDistinctNames
  remembered other := by
    rw [remembers.remembered, List.mem_append, List.mem_singleton]
    exact ⟨Or.inl, fun either => either.elim id fun same => same ▸ isKnown⟩
  reserved := remembers.reserved
  declared := remembers.declared

/-- A specifier whose name is made up is declared on its own exactly if its key is new. -/
theorem madeUp {category : Category} {stem : String} {key : List Int} {step : Run Unit} {value : Unit}
    (remembers : before.RemembersKeys known) (steps : Registry.Steps before after)
    (declares : DeclaresAs (some (.madeUp category stem key)) step)
    (returns : step.Returns before value after) :
    after.RemembersKeys (known ++ [⟨category, stem, before.currentHeader, key⟩]) ∧
      ∃ name, before.Receives after known ⟨category, stem, before.currentHeader, key⟩ name ∧
        (⟨category, stem, before.currentHeader, key⟩, name) ∈ after.anonymous := by
  have noted := declares.anonymous_of_madeUp returns
  cases made : before.uniqueName category stem (some key) with
  | mk name between =>
      have isName : (Naming.madeUp category stem key).name before = name := by
        rw [Naming.name, made]
      rw [made] at noted
      rcases uniqueName_cases made.symm with ⟨found, _⟩ | ⟨unknown, _, isBetween⟩
      · have member := remembers.lookup_eq_some_iff.mp found
        have isKnown := (remembers.remembered _).mp (List.mem_map_of_mem member)
        obtain rfl := remembers.eq_of_known member isName declares returns
        exact ⟨remembers.concat_known isKnown, name,
          ⟨isName, fun isNew => absurd isKnown isNew, fun _ => rfl⟩, member⟩
      · rw [isBetween] at noted
        have isNew : (⟨category, stem, before.currentHeader, key⟩ : AnonymousKey) ∉ known := by
          intro member
          obtain ⟨⟨_, other⟩, inside, rfl⟩ := List.mem_map.mp ((remembers.remembered _).mpr member)
          rw [remembers.lookup_eq_some_iff.mpr inside] at unknown
          cases unknown
        have distinct := remembers.toDistinctNames.uniqueName made.symm
        rw [isBetween] at distinct
        rcases declares.appends returns with ⟨_, same⟩ | ⟨_, ⟨rfl⟩, _, appended⟩
        · rw [same] at noted
          simp at noted
        · obtain ⟨emitted, isEmitted, spelled⟩ := mem_emitted_of_appends appended
          obtain ⟨declaration, isCategory, rest⟩ := appended
          rw [isName] at spelled rest
          refine ⟨remembers.concat steps ⟨noted ▸ distinct.keys, noted ▸ distinct.names⟩ noted
              rest.2.2.2.1 ⟨emitted, isEmitted, spelled⟩, name,
            ⟨isName, fun _ => ⟨declaration, isCategory, rest⟩,
              fun isKnown => absurd isKnown isNew⟩, ?_⟩
          rw [noted]
          exact List.mem_append_right _ List.mem_cons_self

/-- Offering a node keeps what is remembered, and adds a name if the node is a specifier without tag. -/
theorem dispatch {bytes : List UInt8} {node : Cursor} {captures : Option (List Capture)}
    (remembers : before.RemembersKeys known)
    (returns : (table.dispatch alphabet bytes Generation.runDefault node).Returns
      before captures after) :
    after.currentHeader = before.currentHeader ∧
      after.RemembersKeys (known ++ (table.untaggedKey? alphabet before.currentHeader node).toList) ∧
      ∀ key, table.untaggedKey? alphabet before.currentHeader node = some key →
        ∃ name, before.Receives after known key name ∧ (key, name) ∈ after.anonymous := by
  obtain ⟨naming?, step, declares, isKey, goes⟩ :=
    table.exists_declaresAs_dispatch alphabet bytes node
  have ran := goes returns
  have steps := Table.steps_dispatch returns
  refine ⟨declares.currentHeader_eq ran, ?_⟩
  rw [isKey]
  match naming?, declares with
  | none, declares | some (.given _ _), declares =>
      refine ⟨?_, fun key isMadeUp => nomatch isMadeUp⟩
      change after.RemembersKeys (known ++ [])
      rw [List.append_nil]
      exact remembers.of_steps steps (declares.anonymous_eq ran rfl)
  | some (.madeUp category stem key), declares =>
      obtain ⟨kept, receives⟩ := remembers.madeUp steps declares ran
      refine ⟨kept, ?_⟩
      rintro _ ⟨rfl⟩
      exact receives

end Registry.RemembersKeys

/-! ### Offers -/

namespace Offer.Pass

variable {offers : List Offer} {known : List AnonymousKey}

theorem currentHeader_eq (pass : Offer.Pass table alphabet before offers after) :
    after.currentHeader = headerAfter before.currentHeader offers := by
  induction pass with
  | done => rfl
  | header _ ih => exact ih
  | @node before between after bytes cursor captures rest returns _ ih =>
      obtain ⟨_, step, declares, _, goes⟩ := table.exists_declaresAs_dispatch alphabet bytes cursor
      rw [ih, headerAfter, declares.currentHeader_eq (goes returns)]

/-- Offers add a name for each new key, and nothing else. -/
theorem remembersKeys (pass : Offer.Pass table alphabet before offers after)
    (remembers : before.RemembersKeys known) :
    after.RemembersKeys (known ++ Offer.keys table alphabet before.currentHeader offers) := by
  induction pass generalizing known with
  | done => simpa [Offer.keys] using remembers
  | header _ ih => exact ih (remembers.beginHeader _)
  | node returns _ ih =>
      obtain ⟨sameHeader, kept, _⟩ := remembers.dispatch returns
      rw [Offer.keys, ← List.append_assoc, ← sameHeader]
      exact ih (sameHeader ▸ kept)

end Offer.Pass

/-- What is remembered stays remembered. -/
theorem Registry.Steps.mem_anonymous (steps : Registry.Steps before after)
    {entry : AnonymousKey × String} (member : entry ∈ before.anonymous) : entry ∈ after.anonymous := by
  induction steps with
  | refl => exact member
  | tail _ step ih =>
      cases step with
      | header name => exact ih
      | made other => exact List.mem_append_left _ ih
      | admitted admits => rwa [Registry.takeIn_eq]

namespace Session

variable {usual : Mode} {requests : List Request}

/-- Every claimed specifier without tag that a session offers, and that is not directly under a type
definition, receives a name that no specifier without tag of another key receives, and there is exactly one
declaration of that name in its category, under its header. It is declared on its own exactly if no specifier
without tag that was offered before has its key, that is its sort, the text of its header, and the bytes that
it spans in its source; if one has, offering it changes nothing. -/
theorem Generated.untagged_declared_iff
    (generated : Generated table alphabet usual requests registry)
    {first second : List Offer} {bytes : List UInt8} {node : Cursor} {key : AnonymousKey}
    (offered : requests.flatMap Request.offers = first ++ .node bytes node :: second)
    (untagged : table.untaggedKey? alphabet (Offer.headerAfter "" first) node = some key) :
    ∃ here captures next name, Offer.Pass table alphabet .empty first here ∧
      (table.dispatch alphabet bytes Generation.runDefault node).Returns here captures next ∧
      Offer.Pass table alphabet next second registry ∧
      here.Receives next (Offer.keys table alphabet "" first) key name ∧
      (∀ other, registry.anonymous.lookup other = some name ↔ other = key) ∧
      ∃ declaration ∈ registry.emitted.get key.category, declaration.header = key.header ∧
        ∀ other ∈ registry.emitted.get key.category, other.name = name ↔ other = declaration := by
  have pass := generated.pass
  have remembers := pass.remembersKeys .empty
  have distinct := pass.consistent.nodup_names (Table.category_of_untaggedKey? untagged)
  rw [offered] at pass
  obtain ⟨here, captures, next, earlier, returns, later⟩ := pass.at_node
  have remembersHere : here.RemembersKeys (Offer.keys table alphabet "" first) :=
    earlier.remembersKeys .empty
  have sameHeader : here.currentHeader = Offer.headerAfter "" first := earlier.currentHeader_eq
  obtain ⟨name, receives, member⟩ :=
    (remembersHere.dispatch returns).2.2 key (by rw [sameHeader, untagged])
  have isRemembered := later.steps.mem_anonymous member
  obtain ⟨declaration, emitted, rfl, isHeader⟩ := remembers.declared _ isRemembered
  refine ⟨here, captures, next, _, earlier, returns, later, receives, fun other => ?_,
    declaration, emitted, isHeader, fun other isOther => ?_⟩
  · rw [remembers.lookup_eq_some_iff]
    constructor
    · intro isOther
      exact congrArg Prod.fst (List.inj_on_of_nodup_map remembers.names isOther isRemembered rfl)
    · rintro rfl
      exact isRemembered
  · exact ⟨fun same => List.inj_on_of_nodup_map distinct isOther emitted same,
      fun same => same ▸ rfl⟩

/-- A variable of a struct without tag, with one field: `struct { int a; } x;`. -/
def untaggedVariable (text : String) : Document where
  bytes := text.toUTF8.toList
  tree := .node ⟨"translation_unit", 0, 20, none⟩ [
    .node ⟨"declaration", 0, 20, none⟩ [
      .node ⟨"struct_specifier", 0, 17, some "type"⟩ [
        .node ⟨"field_declaration_list", 7, 17, some "body"⟩ [
          .node ⟨"field_declaration", 9, 15, none⟩ [
            .node ⟨"primitive_type", 9, 12, some "type"⟩ [],
            .node ⟨"field_identifier", 13, 14, some "declarator"⟩ []]]],
      .node ⟨"identifier", 18, 19, some "declarator"⟩ []]]
  hasError := false

/-- Two sources that differ in the name of the field, under the header that is usual. -/
def sameSpan : List Request :=
  [] ++ [⟨"", "", untaggedVariable "struct { int a; } x;"⟩]
    ++ [⟨"", "", untaggedVariable "struct { int b; } x;"⟩]

/-- The registry after the first of the two sources, and after both. -/
def afterSameSpan : Registry :=
  { Registry.empty with
    headers := [""]
    declared := ⟨[], ["AnonStruct0"], [], []⟩
    emitted := ⟨[], [.record ⟨"AnonStruct0", "", "", false,
      [⟨"a", .named "ctypes.c_int", none, none⟩]⟩], [], []⟩
    anonymous := [(⟨.types, "AnonStruct", "", [0, 17]⟩, "AnonStruct0")] }

theorem generated_sameSpan : Generated Rules.table Rules.alphabet .c sameSpan afterSameSpan := by
  have first : (Generation.generate (m := Run) Rules.table Rules.alphabet Generation.runDefault .c
      "" "" (untaggedVariable "struct { int a; } x;")).Returns .empty 1 afterSameSpan := by
    rw [Rules.table_eq, Rules.alphabet_eq]
    decide +kernel
  have second : (Generation.generate (m := Run) Rules.table Rules.alphabet Generation.runDefault .c
      "" "" (untaggedVariable "struct { int b; } x;")).Returns afterSameSpan 1 afterSameSpan := by
    rw [Rules.table_eq, Rules.alphabet_eq]
    decide +kernel
  have one : Generated Rules.table Rules.alphabet .c
      ([] ++ [⟨"", "", untaggedVariable "struct { int a; } x;"⟩]) afterSameSpan :=
    .more .nothing first
  change Generated _ _ _ (_ ++ [⟨"", "", untaggedVariable "struct { int b; } x;"⟩]) _
  exact .more one second

/-- The structs of both sources are specifiers without tag, of one key. -/
theorem keys_sameSpan : Offer.keys Rules.table Rules.alphabet "" (sameSpan.flatMap Request.offers)
    = [⟨.types, "AnonStruct", "", [0, 17]⟩, ⟨.types, "AnonStruct", "", [0, 17]⟩] := by
  rw [Rules.table_eq, Rules.alphabet_eq]
  decide +kernel

/-- The struct of the second source is offered after that of the first. -/
theorem offered_sameSpan : ∃ first bytes node second,
    sameSpan.flatMap Request.offers = first ++ .node bytes node :: second ∧
    Rules.table.untaggedKey? Rules.alphabet (Offer.headerAfter "" first) node
      = some ⟨.types, "AnonStruct", "", [0, 17]⟩ ∧
    (⟨.types, "AnonStruct", "", [0, 17]⟩ : AnonymousKey)
      ∈ Offer.keys Rules.table Rules.alphabet "" first := by
  let offers := sameSpan.flatMap Request.offers
  refine ⟨offers.take 12, _, _, offers.drop 13, rfl, ?_, ?_⟩
  · rw [Rules.table_eq, Rules.alphabet_eq]
    decide +kernel
  · rw [Rules.table_eq, Rules.alphabet_eq]
    decide +kernel

/-- The struct of the second source receives the name of the first one's, and is not declared. -/
theorem Generated.untagged_declared_iff_sameSpan :
    ∃ first bytes node second, sameSpan.flatMap Request.offers = first ++ .node bytes node :: second ∧
      Rules.table.untaggedKey? Rules.alphabet (Offer.headerAfter "" first) node
        = some ⟨.types, "AnonStruct", "", [0, 17]⟩ ∧
      ∃ here captures, Offer.Pass Rules.table Rules.alphabet .empty first here ∧
        (Rules.table.dispatch Rules.alphabet bytes Generation.runDefault node).Returns
          here captures here ∧
        (here.uniqueName .types "AnonStruct" (some [0, 17])).1 = "AnonStruct0" := by
  obtain ⟨first, bytes, node, second, offered, untagged, known⟩ := offered_sameSpan
  obtain ⟨here, captures, next, name, earlier, returns, _, receives, isRemembered, _⟩ :=
    Generated.untagged_declared_iff generated_sameSpan offered untagged
  obtain rfl := receives.repeats known
  have isName := (isRemembered _).mpr rfl
  obtain rfl : "AnonStruct0" = name := by simpa [afterSameSpan] using isName
  exact ⟨first, bytes, node, second, offered, untagged, next, captures, earlier, returns,
    receives.named⟩

/-- Two different sources offer two specifiers without tag, and one of them is declared. -/
theorem untagged_lost_sameSpan :
    Generated Rules.table Rules.alphabet .c sameSpan afterSameSpan ∧
      (sameSpan.map (·.document.bytes)).Nodup ∧
      (Offer.keys Rules.table Rules.alphabet "" (sameSpan.flatMap Request.offers)).length = 2 ∧
      afterSameSpan.emitted = ⟨[], [.record ⟨"AnonStruct0", "", "", false,
        [⟨"a", .named "ctypes.c_int", none, none⟩]⟩], [], []⟩ :=
  ⟨generated_sameSpan, by decide +kernel, by rw [keys_sameSpan]; rfl, rfl⟩

end Session

end HeaderBindings
