/-
Module: HeaderBindings.Proofs.EmittedDeclarations
Purpose: Which action a declaration comes from, and what of its captures it keeps.
Main exports: Action.Makes, Action.emits, Document.Defines, Offer.Pass.exists_emission,
  Session.Generated.exists_emission
-/
import HeaderBindings.Proofs.ClaimedCaptures
import HeaderBindings.Proofs.SelfTypedefs
import HeaderBindings.Proofs.SessionMerge

namespace HeaderBindings

open Run Spelling

variable {before after : Registry} {value : Unit} {action : Action} {captures : List Capture}

/-! ### What actions make -/

/-- An action makes a declaration of captures: a macro of the literal that the second capture is; a record
with the fields that captures spell; or a declaration of another kind. -/
inductive Action.Makes (captures : List Capture) : Action → Declaration → Prop where
  | constant {first second : Capture} {rest : List Capture} {constant : Constant}
      (spelled : captures = first :: second :: rest)
      (isLiteral : literal? second.text = some constant.value)
      (isName : constant.name = bindingName first.text) :
      Makes captures .defineConstant (.constant constant)
  | typeAlias (typeAlias : Alias) : Makes captures .declareAlias (.typeAlias typeAlias)
  | record {action : Action} {record : Record} {part : List Capture} {before after : Registry}
      (of : action ∈ [.declareRecord, .declareTypedefRecord]) (inside : part ⊆ captures)
      (read : (readFields [] part).Returns before record.fields after) :
      Makes captures action (.record record)
  | enumeration {action : Action} (enumeration : Enumeration)
      (of : action ∈ [.declareEnumeration, .declareTypedefEnumeration]) :
      Makes captures action (.enumeration enumeration)
  | function (function : Function) : Makes captures .declareFunction (.function function)

/-- A step adds at most one declaration, which an action makes of captures. -/
def Emits (action : Action) (captures : List Capture) (before after : Registry) : Prop :=
  after.emitted = before.emitted ∨ ∃ declaration, action.Makes captures declaration ∧
    after.emitted = before.emitted.modify declaration.category (· ++ [declaration])

/-- What is emitted after such a step was emitted before, or the action makes it. -/
theorem Emits.mem_emitted {category : Category} {declaration : Declaration}
    (emits : Emits action captures before after) (emitted : declaration ∈ after.emitted.get category) :
    declaration ∈ before.emitted.get category ∨ action.Makes captures declaration := by
  rcases emits with same | ⟨made, makes, added⟩
  · exact Or.inl (same ▸ emitted)
  · rw [added] at emitted
    by_cases here : category = made.category
    · subst here
      rw [ByCategory.get_modify_self, List.mem_append, List.mem_singleton] at emitted
      rcases emitted with earlier | rfl
      · exact Or.inl earlier
      · exact Or.inr makes
    · rw [ByCategory.get_modify_of_ne _ _ here] at emitted
      exact Or.inl emitted

namespace Run.DeclaresUnder

variable {category : Category} {name : String} {made : Registry → Declaration} {step : Run Unit}

theorem emits (declares : DeclaresUnder category name made step)
    (returns : step.Returns before value after) (makes : action.Makes captures (made before)) :
    Emits action captures before after := by
  rcases declares.takesIn returns with ⟨_, rfl⟩ | ⟨_, rfl⟩
  · exact Or.inl rfl
  · exact Or.inr ⟨_, makes, Registry.emitted_takeIn before _⟩

/-- After a step that declares under a name, the name is reserved. -/
theorem isDeclared (declares : DeclaresUnder category name made step) (named : name ≠ "")
    (returns : step.Returns before value after) : after.isDeclared category name = true := by
  rcases declares.takesIn returns with ⟨blocked, rfl⟩ | ⟨_, rfl⟩
  · exact blocked.resolve_left named
  · have taken := Registry.isDeclared_takeIn_self before (made before)
    rwa [declares.isCategory, declares.isName] at taken

end Run.DeclaresUnder

theorem emits_of_same (same : after = before) : Emits action captures before after :=
  Or.inl (congrArg Registry.emitted same)

theorem exists_of_not_short (long : ¬ captures.length < 2) :
    ∃ first second rest, captures = first :: second :: rest := by
  match captures, long with
  | [], long | [_], long => exact absurd (by simp) long
  | first :: second :: rest, _ => exact ⟨first, second, rest, rfl⟩

theorem emits_defineConstant (returns : (defineConstant captures).Returns before value after) :
    Emits .defineConstant captures before after := by
  by_cases short : captures.length < 2
  · rw [(eq_pure_of_short short).1] at returns
    exact emits_of_same (returns_pure_iff.mp returns).2
  · obtain ⟨first, second, rest, rfl⟩ := exists_of_not_short short
    cases isLiteral : literal? second.text with
    | none =>
        rw [defineConstant_eq_pure first second rest isLiteral] at returns
        exact emits_of_same (returns_pure_iff.mp returns).2
    | some literal =>
        obtain ⟨made, _, isMade, declares⟩ := declaresUnder_defineConstant first second rest isLiteral
        apply declares.emits returns
        rw [isMade]
        exact .constant rfl isLiteral rfl

theorem emits_declareAlias (returns : (declareAlias captures).Returns before value after) :
    Emits .declareAlias captures before after := by
  by_cases short : captures.length < 2
  · rw [(eq_pure_of_short short).2.1] at returns
    exact emits_of_same (returns_pure_iff.mp returns).2
  · obtain ⟨first, second, rest, rfl⟩ := exists_of_not_short short
    obtain ⟨made, _, aliases, declares⟩ := declaresUnder_declareAlias first second rest
    obtain ⟨typeAlias, isMade⟩ := aliases before
    exact declares.emits returns (isMade ▸ .typeAlias typeAlias)

theorem emits_declareFunction (returns : (declareFunction captures).Returns before value after) :
    Emits .declareFunction captures before after := by
  by_cases short : captures.length < 2
  · rw [(eq_pure_of_short short).2.2] at returns
    exact emits_of_same (returns_pure_iff.mp returns).2
  · obtain ⟨first, second, rest, rfl⟩ := exists_of_not_short short
    obtain ⟨made, _, declares⟩ := declaresUnder_declareFunction first second rest
    refine declares.emits returns ?_
    have isCategory := declares.isCategory before
    cases isMade : made before with
    | function f => exact .function f
    | constant | typeAlias | record | enumeration =>
        rw [isMade] at isCategory
        cases isCategory

theorem emits_emitRecord {name spelling : String} {isUnion : Bool} {part : List Capture}
    (of : action ∈ [.declareRecord, .declareTypedefRecord]) (inside : part ⊆ captures)
    (returns : (emitRecord name spelling isUnion part).Returns before value after) :
    Emits action captures before after := by
  rcases returns_emitRecord_iff.mp returns with ⟨_, same⟩ | ⟨_, _, fields, between, read, rfl⟩
  · exact emits_of_same same
  · refine Or.inr ⟨.record ⟨name, spelling, before.currentHeader, isUnion, fields⟩,
      .record of inside read, ?_⟩
    obtain ⟨_, _, rfl⟩ := addsNoting_readFields read
    rw [Registry.referAll_frame]
    rfl

theorem emits_emitEnumeration {name : String} {specifier : Tree} {part : List Capture}
    (of : action ∈ [.declareEnumeration, .declareTypedefEnumeration])
    (returns : (emitEnumeration name specifier part).Returns before value after) :
    Emits action captures before after :=
  (declaresUnder_emitEnumeration name specifier part).emits returns (.enumeration _ of)

theorem Emits.of_emitted {between : Registry} (emits : Emits action captures between after)
    (same : between.emitted = before.emitted) : Emits action captures before after := by
  unfold Emits at emits ⊢
  rwa [same] at emits

theorem emits_declareRecord {node : Cursor}
    (returns : (declareRecord node captures).Returns before value after) :
    Emits .declareRecord captures before after := by
  rw [declareRecord_eq] at returns
  rcases returns_declareSpecifier_iff.mp returns with
    ⟨_, _, _, emitted⟩ | ⟨_, _, same⟩ | ⟨_, _, _, _, made, emitted⟩
  · exact emits_emitRecord (by simp) (List.drop_subset _ _) emitted
  · exact emits_of_same same
  · exact (emits_emitRecord (by simp) (List.Subset.refl _) emitted).of_emitted
      (Registry.emitted_uniqueName made)

theorem emits_declareTypedefRecord {node : Cursor}
    (returns : (declareTypedefRecord node captures).Returns before value after) :
    Emits .declareTypedefRecord captures before after := by
  unfold declareTypedefRecord at returns
  split at returns
  · exact emits_emitRecord (by simp)
      (List.Subset.trans (List.drop_subset _ _) (List.dropLast_subset _)) returns
  · exact emits_of_same (returns_pure_iff.mp returns).2

theorem emits_declareEnumeration {node : Cursor}
    (returns : (declareEnumeration node captures).Returns before value after) :
    Emits .declareEnumeration captures before after := by
  rw [declareEnumeration_eq] at returns
  rcases returns_declareSpecifier_iff.mp returns with
    ⟨_, _, _, emitted⟩ | ⟨_, _, same⟩ | ⟨_, _, _, _, made, emitted⟩
  · exact emits_emitEnumeration (by simp) emitted
  · exact emits_of_same same
  · exact (emits_emitEnumeration (by simp) emitted).of_emitted (Registry.emitted_uniqueName made)

theorem emits_declareTypedefEnumeration {node : Cursor}
    (returns : (declareTypedefEnumeration node captures).Returns before value after) :
    Emits .declareTypedefEnumeration captures before after := by
  unfold declareTypedefEnumeration at returns
  split at returns
  · exact emits_emitEnumeration (by simp) returns
  · exact emits_of_same (returns_pure_iff.mp returns).2

/-- An action that returns adds at most one declaration, which it makes of its captures. -/
theorem Action.emits {node : Cursor}
    (returns : (action.run (some node) captures).Returns before value after) :
    Emits action captures before after := by
  cases action with
  | defineConstant => exact emits_defineConstant returns
  | declareAlias => exact emits_declareAlias returns
  | declareRecord => exact emits_declareRecord returns
  | declareTypedefRecord => exact emits_declareTypedefRecord returns
  | declareEnumeration => exact emits_declareEnumeration returns
  | declareTypedefEnumeration => exact emits_declareTypedefEnumeration returns
  | declareFunction => exact emits_declareFunction returns

/-! ### Macros with a literal -/

/-- The captures of a claimed macro are its name and its text. -/
theorem Rules.captures_of_macro (bytes : List UInt8) {node : Cursor}
    (claimed : Claims node .defineConstant) :
    ∃ first second, node.leaves = [first, second] ∧
      (node.capturesAfter bytes []).reverse = [first.leaf bytes, second.leaf bytes] := by
  obtain ⟨first, second, leaves, isName, isText⟩ :=
    leaves_of_macro (finds_of_claims claimed (by simp [shapeList]))
  have noPointers : pointersOf [second] = "" :=
    pointersOf_of_plain (by simp [isText, Capture.declaratorNames])
  have noField : ∀ leaf ∈ node.leaves, leaf.kind ≠ "field_identifier" := by
    rw [leaves]
    simp [isName, isText]
  refine ⟨first, second, leaves, ?_⟩
  rw [Cursor.captures_eq_spelled noField, leaves, spelled, spelled, spelled, noPointers, pointersOf,
    String.append_empty, String.append_empty]
  rfl

/-- A document defines a name as a literal: a claimed macro has the name, and its text is the literal. -/
def Document.Defines (document : Document) (name literal : String) : Prop :=
  ∃ node ∈ (Cursor.root document.tree).walk, Rules.Claims node .defineConstant ∧
    ∃ first second, node.leaves = [first, second] ∧
      literal? (second.textIn document.bytes) = some literal ∧
      name = bindingName (first.textIn document.bytes)

/-- A macro that a claimed node of a document is made into is defined by the document as its literal. -/
theorem Document.defines_of_makes {document : Document} {node : Cursor} {constant : Constant}
    (inside : node ∈ (Cursor.root document.tree).walk) (claimed : Rules.Claims node action)
    (makes : action.Makes (node.capturesAfter document.bytes []).reverse (.constant constant)) :
    document.Defines constant.name constant.value := by
  cases makes with
  | constant spelled isLiteral isName =>
      obtain ⟨first, second, leaves, captured⟩ := Rules.captures_of_macro document.bytes claimed
      obtain ⟨rfl, tail⟩ := List.cons_eq_cons.mp (captured.symm.trans spelled)
      obtain ⟨rfl, _⟩ := List.cons_eq_cons.mp tail
      exact ⟨node, inside, claimed, first, second, leaves, isLiteral, isName⟩

/-! ### What a session emits -/

/-- Every declaration that offers add is made by the action that claims one of the offered nodes, of what is
captured from the node. -/
theorem Offer.Pass.exists_emission {offers : List Offer} {category : Category}
    {declaration : Declaration} (pass : Offer.Pass Rules.table Rules.alphabet before offers after)
    (emitted : declaration ∈ after.emitted.get category) :
    declaration ∈ before.emitted.get category ∨ ∃ bytes node action,
      Offer.node bytes node ∈ offers ∧ Rules.Claims node action ∧
      action.Makes (node.capturesAfter bytes []).reverse declaration := by
  induction pass with
  | done => exact Or.inl emitted
  | header _ ih =>
      refine (ih emitted).imp_right ?_
      rintro ⟨bytes, node, action, member, claimed, makes⟩
      exact ⟨bytes, node, action, List.mem_cons_of_mem _ member, claimed, makes⟩
  | @node start between _ bytes cursor _ rest returns _ ih =>
      rcases ih emitted with earlier | ⟨bytes, node, action, member, claimed, makes⟩
      · cases claimed : (Rules.table.claim? Rules.alphabet cursor).bind (·.entry.action) with
        | none => exact Or.inl (Table.eq_of_unclaimed claimed returns ▸ earlier)
        | some action =>
            have emits := Action.emits (Rules.returns_run_of_dispatch claimed returns).2
            refine (emits.mem_emitted earlier).imp_right fun makes => ?_
            exact ⟨bytes, cursor, action, List.mem_cons_self, claimed, makes⟩
      · exact Or.inr ⟨bytes, node, action, List.mem_cons_of_mem _ member, claimed, makes⟩

/-- Every declaration that a session emits is made by the action that claims a node of one of its documents,
of what is captured from the node. -/
theorem Session.Generated.exists_emission {requests : List Request} {registry : Registry} {usual : Mode}
    {category : Category} {declaration : Declaration}
    (generated : Generated Rules.table Rules.alphabet usual requests registry)
    (emitted : declaration ∈ registry.emitted.get category) :
    ∃ request ∈ requests, ∃ node ∈ (Cursor.root request.document.tree).walk, ∃ action,
      Rules.Claims node action ∧
      action.Makes (node.capturesAfter request.document.bytes []).reverse declaration := by
  rcases generated.pass.exists_emission emitted with
    early | ⟨bytes, node, action, offered, claimed, makes⟩
  · have none_ : Registry.empty.emitted.get category = [] := by cases category <;> rfl
    rw [none_] at early
    cases early
  · obtain ⟨request, isRequest, rfl, inside⟩ := Request.mem_offers_iff.mp offered
    exact ⟨request, isRequest, node, inside, action, claimed, makes⟩

end HeaderBindings
