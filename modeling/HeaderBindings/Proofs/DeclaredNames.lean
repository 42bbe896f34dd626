/-
Module: HeaderBindings.Proofs.DeclaredNames
Purpose: Where the names come from that a session declares: each is made up, or is that of one captured
  node of a claimed node, with the pointers of the node captured next.
Main exports: MadeUp, Cursor.Names, Registry.NamesFrom, Rules.namesFrom_dispatch,
  Session.Generated.declared_name_origin
-/
import HeaderBindings.Proofs.ClaimedCaptures
import HeaderBindings.Proofs.NameCharacters
import HeaderBindings.Proofs.NumberedNames
import HeaderBindings.Proofs.SelfTypedefs

namespace HeaderBindings

open Run Spelling

/-! ### Names that are made up -/

/-- The beginnings of names that are made up. -/
def madeUpStems : List String := ["AnonStruct", "AnonUnion", "AnonEnum"]

/-- A name that is made up for a specifier without tag: a stem and a number. -/
def MadeUp (name : String) : Prop :=
  ∃ stem ∈ madeUpStems, ∃ number : Nat, name = stem ++ toString number

/-! ### Registries whose names have an origin -/

/-- Every reserved name is made up or has an origin, and whatever was made up is remembered as such. -/
structure Registry.NamesFrom (origin : Category → String → Prop) (registry : Registry) : Prop where
  declared : ∀ {category name}, registry.isDeclared category name = true →
    MadeUp name ∨ origin category name
  remembered : ∀ entry ∈ registry.anonymous, MadeUp entry.2

namespace Registry

variable {registry before after : Registry} {origin other : Category → String → Prop}

theorem isDeclared_takeIn_iff {declaration : Declaration} {category : Category} {name : String} :
    (registry.takeIn declaration).isDeclared category name = true ↔
      registry.isDeclared category name = true ∨ name ∈ declaration.takes category := by
  simp [isDeclared, declared_takeIn]

namespace NamesFrom

theorem empty : Registry.empty.NamesFrom origin where
  declared {_ _} isDeclared := by
    simp [Registry.isDeclared, Registry.empty] at isDeclared
  remembered := by simp [Registry.empty]

theorem mono (names : registry.NamesFrom origin)
    (weaker : ∀ category name, origin category name → other category name) :
    registry.NamesFrom other where
  declared declared := (names.declared declared).imp_right (weaker _ _)
  remembered := names.remembered

theorem beginHeader (names : registry.NamesFrom origin) (header : String) :
    (registry.beginHeader header).NamesFrom origin := ⟨names.declared, names.remembered⟩

theorem takeIn (names : registry.NamesFrom origin) {declaration : Declaration}
    (isOrigin : ∀ category,
      ∀ name ∈ declaration.takes category, MadeUp name ∨ origin category name) :
    (registry.takeIn declaration).NamesFrom origin where
  declared declared := (isDeclared_takeIn_iff.mp declared).elim names.declared (isOrigin _ _)
  remembered := by
    rw [takeIn_eq]
    exact names.remembered

/-- What is made up for a key is a numbered name, and remembered. -/
theorem uniqueName (names : before.NamesFrom origin) {category : Category} {stem name : String}
    {key : Option (List Int)} (isStem : stem ∈ madeUpStems)
    (made : (name, after) = before.uniqueName category stem key) :
    MadeUp name ∧ after.NamesFrom origin := by
  have fresh : ∀ taken, MadeUp (freshName taken stem) := by
    intro taken
    obtain ⟨number, _, spelled, _⟩ := freshName_spec taken stem
    exact ⟨stem, isStem, number, spelled⟩
  cases key with
  | none =>
      obtain ⟨rfl, rfl⟩ := Prod.mk.inj made
      exact ⟨fresh _, names⟩
  | some key =>
      rcases uniqueName_cases made with ⟨isKnown, rfl⟩ | ⟨_, rfl, rfl⟩
      · obtain ⟨_, _, listed, _⟩ := List.lookup_eq_some_iff.mp isKnown
        have isKept : (⟨category, stem, after.currentHeader, key⟩, name) ∈ after.anonymous :=
          listed ▸ List.mem_append_right _ List.mem_cons_self
        exact ⟨names.remembered _ isKept, names⟩
      · refine ⟨fresh _, names.declared, fun entry member => ?_⟩
        rcases List.mem_append.mp member with earlier | isNew
        · exact names.remembered entry earlier
        · rw [List.mem_singleton.mp isNew]
          exact fresh _

end NamesFrom

end Registry

/-! ### Steps that declare -/

section

variable {before after : Registry} {value : Unit} {origin : Category → String → Prop}

/-- Only enumerations have members. -/
theorem memberNames_of_category {declaration : Declaration}
    (plain : declaration.category ≠ .enumerations) : declaration.memberNames = [] := by
  cases declaration with
  | enumeration => exact absurd rfl plain
  | constant | typeAlias | record | function => rfl

namespace Run.DeclaresUnder

variable {category : Category} {name : String} {made : Registry → Declaration} {step : Run Unit}

theorem namesFrom (declares : DeclaresUnder category name made step)
    (names : before.NamesFrom origin) (isOrigin : MadeUp name ∨ origin category name)
    (members : ∀ member ∈ (made before).memberNames, origin .constants member)
    (returns : step.Returns before value after) : after.NamesFrom origin := by
  rcases declares.takesIn returns with ⟨_, rfl⟩ | ⟨_, rfl⟩
  · exact names
  · apply names.takeIn
    intro other taken isTaken
    rcases Declaration.mem_takes.mp isTaken with ⟨isCategory, isName⟩ | ⟨rfl, member⟩
    · rwa [isCategory, isName, declares.isCategory, declares.isName]
    · exact Or.inr (members taken member)

theorem namesFrom_of_plain (declares : DeclaresUnder category name made step)
    (plain : category ≠ .enumerations) (names : before.NamesFrom origin)
    (isOrigin : MadeUp name ∨ origin category name) (returns : step.Returns before value after) :
    after.NamesFrom origin := by
  apply declares.namesFrom names isOrigin ?_ returns
  rw [memberNames_of_category (by rwa [declares.isCategory])]
  simp

end Run.DeclaresUnder

/-- The members of an enumeration are named by the first nodes below its enumerators. -/
theorem name_of_mem_readMembers {bytes : List UInt8} {nodes : List Cursor}
    (areEnumerators : ∀ enumerator ∈ nodes, enumerator.IsEnumerator) {tail : List Capture}
    {known : List (String × Int)} {next : Int} {given result : List Enumerator}
    (returns : (readMembers known next given (nodes.map Cursor.focus)
      ((nodes.flatMap Cursor.named).map (Cursor.leaf bytes) ++ tail)).Returns before result after) :
    ∀ member ∈ result, member ∈ given ∨ ∃ enumerator ∈ nodes, ∃ name values,
      enumerator.named = name :: values ∧ member.name = bindingName (name.textIn bytes) := by
  induction nodes generalizing known next given before with
  | nil =>
      rw [List.map_nil, readMembers] at returns
      obtain ⟨rfl, _⟩ := returns_pure_iff.mp returns
      exact fun member inside => Or.inl inside
  | cons enumerator rest ih =>
      rw [List.forall_mem_cons] at areEnumerators
      obtain ⟨name, values, inOrder, atMostOne, _⟩ := areEnumerators.1.inOrder
      obtain ⟨first, value, kept, between, _, _, isFirst, _, later⟩ :=
        returns_readMembers_cons returns
      rw [areEnumerators.1.drop_captures] at later
      obtain rfl : name.leaf bytes = first := by simpa [inOrder] using isFirst
      intro member inside
      rcases ih areEnumerators.2 later member inside with already | ⟨other, isOther, named⟩
      · cases kept with
        | false => exact Or.inl already
        | true =>
            rcases List.mem_append.mp already with before | isNew
            · exact Or.inl before
            · rw [List.mem_singleton.mp isNew]
              exact Or.inr ⟨enumerator, List.mem_cons_self, name, values, inOrder, rfl⟩
      · exact Or.inr ⟨other, List.mem_cons_of_mem _ isOther, named⟩

end

/-! ### The names of a claimed node -/

/-- An action declares a name in a category that is that of one captured node of the node it is carried
out for; the captured nodes after that one are listed. A macro is named by its first one, a type
definition and a function by their second one, whatever that is. -/
inductive Cursor.Names (node : Cursor) : Action → Category → Cursor → List Cursor → Prop where
  | macroName {name : Cursor} {rest : List Cursor} (leaves : node.leaves = name :: rest) :
      Names node .defineConstant .constants name rest
  | second {action : Action} {category : Category} {type name : Cursor} {rest : List Cursor}
      (of : (action, category) ∈
        [(Action.declareAlias, Category.types), (.declareFunction, .functions)])
      (leaves : node.leaves = type :: name :: rest) : Names node action category name rest
  | tag {action : Action} {category : Category} {tag : Cursor} {rest : List Cursor}
      (of : (action, category) ∈
        [(Action.declareRecord, Category.types), (.declareEnumeration, .enumerations)])
      (tagged : tag ∈ node.ofKinds ["type_identifier"]) (leaves : node.leaves = tag :: rest) :
      Names node action category tag rest
  | defined {action : Action} {category : Category} {name : Cursor} {front : List Cursor}
      (of : (action, category) ∈
        [(Action.declareTypedefRecord, Category.types), (.declareTypedefEnumeration, .enumerations)])
      (isName : name ∈ node.ofKinds ["type_identifier"]) (leaves : node.leaves = front ++ [name]) :
      Names node action category name []
  | member {action : Action} {specifier enumerator name : Cursor} {values : List Cursor}
      (of : action = .declareEnumeration ∧ specifier = node ∨
        action = .declareTypedefEnumeration ∧ specifier ∈ node.ofKinds ["enum_specifier"])
      (inside : enumerator ∈ specifier.enumeratorNodes)
      (inOrder : enumerator.named = name :: values) : Names node action .constants name values

namespace Rules

open Pattern

section

variable {alphabet : Alphabet} {bytes : List UInt8} {node : Cursor} {action : Action}
  {before after : Registry} {value : Unit} {origin : Category → String → Prop}

/-- Every name that an action takes from a node has an origin. -/
def HasOrigins (origin : Category → String → Prop) (bytes : List UInt8) (node : Cursor)
    (action : Action) : Prop :=
  ∀ category leaf rest, node.Names action category leaf rest →
    origin category (bindingName (leaf.textIn bytes ++ pointersOf rest))

/-- No field's name is captured from a macro, a type definition without body, or a function. -/
theorem noField_of_plain (of : action ∈ [.defineConstant, .declareAlias, .declareFunction])
    (finds : ∀ pattern, (pattern, action) ∈ shapeList → pattern.Finds alphabet none node) :
    ∀ leaf ∈ node.leaves, leaf.kind ≠ "field_identifier" := by
  have noField : ∀ entry ∈ shapeList,
      entry.2 ∈ [Action.defineConstant, .declareAlias, .declareFunction] →
      "field_identifier" ∉ entry.1.descendants.flatMap (·.head.kinds) := by
    decide
  obtain ⟨pattern, isShape⟩ : ∃ pattern, (pattern, action) ∈ shapeList := by
    cases action <;> simp [shapeList]
  intro leaf member isField
  have kind := (List.mem_filter.mp (kind_of_mem_leaves isShape (finds _ isShape) member)).1
  exact noField _ isShape of (isField ▸ kind)

theorem namesFrom_defineConstant
    (noField : ∀ leaf ∈ node.leaves, leaf.kind ≠ "field_identifier")
    (names : before.NamesFrom origin) (origins : HasOrigins origin bytes node .defineConstant)
    (returns : (defineConstant (node.capturesAfter bytes []).reverse).Returns before value after) :
    after.NamesFrom origin := by
  rw [Cursor.captures_eq_spelled noField] at returns
  match leaves : node.leaves with
  | [] | [_] =>
      rw [leaves, (eq_pure_of_short (by simp)).1] at returns
      rwa [(returns_pure_iff.mp returns).2]
  | name :: text :: others =>
      rw [leaves, spelled, spelled] at returns
      let first : Capture := ⟨name.kind, name.textIn bytes ++ pointersOf (text :: others)⟩
      let second : Capture := ⟨text.kind, text.textIn bytes ++ pointersOf others⟩
      cases isLiteral : literal? second.text with
      | none =>
          rw [defineConstant_eq_pure first second _ isLiteral] at returns
          rwa [(returns_pure_iff.mp returns).2]
      | some literal =>
          obtain ⟨made, _, _, declares⟩ := declaresUnder_defineConstant first second _ isLiteral
          exact declares.namesFrom_of_plain (by simp) names
            (Or.inr (origins _ _ _ (.macroName leaves))) returns

theorem namesFrom_declareAlias
    (noField : ∀ leaf ∈ node.leaves, leaf.kind ≠ "field_identifier")
    (names : before.NamesFrom origin) (origins : HasOrigins origin bytes node .declareAlias)
    (returns : (declareAlias (node.capturesAfter bytes []).reverse).Returns before value after) :
    after.NamesFrom origin := by
  rw [Cursor.captures_eq_spelled noField] at returns
  match leaves : node.leaves with
  | [] | [_] =>
      rw [leaves, (eq_pure_of_short (by simp)).2.1] at returns
      rwa [(returns_pure_iff.mp returns).2]
  | type :: name :: rest =>
      rw [leaves, spelled, spelled] at returns
      obtain ⟨made, _, _, declares⟩ := declaresUnder_declareAlias
        ⟨type.kind, type.textIn bytes ++ pointersOf (name :: rest)⟩
        ⟨name.kind, name.textIn bytes ++ pointersOf rest⟩ (spelled bytes rest)
      exact declares.namesFrom_of_plain (by simp) names
        (Or.inr (origins _ _ _ (.second (by simp) leaves))) returns

theorem namesFrom_declareFunction
    (noField : ∀ leaf ∈ node.leaves, leaf.kind ≠ "field_identifier")
    (names : before.NamesFrom origin) (origins : HasOrigins origin bytes node .declareFunction)
    (returns : (declareFunction (node.capturesAfter bytes []).reverse).Returns before value after) :
    after.NamesFrom origin := by
  rw [Cursor.captures_eq_spelled noField] at returns
  match leaves : node.leaves with
  | [] | [_] =>
      rw [leaves, (eq_pure_of_short (by simp)).2.2] at returns
      rwa [(returns_pure_iff.mp returns).2]
  | type :: name :: rest =>
      rw [leaves, spelled, spelled] at returns
      obtain ⟨made, _, declares⟩ := declaresUnder_declareFunction
        ⟨type.kind, type.textIn bytes ++ pointersOf (name :: rest)⟩
        ⟨name.kind, name.textIn bytes ++ pointersOf rest⟩ (spelled bytes rest)
      exact declares.namesFrom_of_plain (by simp) names
        (Or.inr (origins _ _ _ (.second (by simp) leaves))) returns

theorem namesFrom_emitRecord {name spelling : String} {isUnion : Bool} {captures : List Capture}
    (names : before.NamesFrom origin) (isOrigin : MadeUp name ∨ origin .types name)
    (returns : (emitRecord name spelling isUnion captures).Returns before value after) :
    after.NamesFrom origin := by
  obtain ⟨made, _, declares⟩ := declaresUnder_emitRecord name spelling isUnion captures
  exact declares.namesFrom_of_plain (by simp) names isOrigin returns

theorem namesFrom_declareRecord (finds : recordPattern.Finds alphabet none node)
    (names : before.NamesFrom origin) (origins : HasOrigins origin bytes node .declareRecord)
    (returns : (declareRecord node (node.capturesAfter bytes []).reverse).Returns
      before value after) : after.NamesFrom origin := by
  obtain ⟨_, _, leaves, _, _⟩ := leaves_of_listing finds (by decide) (by simp) (by decide)
    (by decide)
  rw [declareRecord_eq] at returns
  rcases returns_declareSpecifier_iff.mp returns with
    ⟨hasName, first, isFirst, emitted⟩ | ⟨_, _, rfl⟩ | ⟨_, _, name, between, made, emitted⟩
  · obtain ⟨tag, rest, others, tagged, inOrder, captured⟩ := firstCapture_of_tagged bytes leaves hasName
    rw [captured] at isFirst
    obtain ⟨⟩ := isFirst
    exact namesFrom_emitRecord names (Or.inr (origins _ _ _ (.tag (by simp) tagged inOrder))) emitted
  · exact names
  · have isStem : (if node.focus.isUnion then "AnonUnion" else "AnonStruct") ∈ madeUpStems := by
      split <;> decide
    obtain ⟨isMadeUp, kept⟩ := names.uniqueName isStem made
    exact namesFrom_emitRecord kept (Or.inl isMadeUp) emitted

theorem namesFrom_declareTypedefRecord
    (finds : (typedefAround recordPattern).Finds alphabet none node)
    (names : before.NamesFrom origin) (origins : HasOrigins origin bytes node .declareTypedefRecord)
    (returns : (declareTypedefRecord node (node.capturesAfter bytes []).reverse).Returns
      before value after) : after.NamesFrom origin := by
  obtain ⟨specifier, name, _, isName, leaves, _⟩ := leaves_of_definition finds rfl (by decide)
  unfold declareTypedefRecord at returns
  rw [Cursor.getLast?_captures leaves] at returns
  split at returns
  · rename_i last _ isLast
    obtain rfl := Option.some.inj isLast
    have isOrigin := origins .types name []
      (.defined (by simp) (isName ▸ List.mem_singleton_self name) leaves)
    rw [pointersOf, String.append_empty] at isOrigin
    exact namesFrom_emitRecord names (Or.inr isOrigin) returns
  · rwa [(returns_pure_iff.mp returns).2]

/-- An enumeration declares its name and the names of its members. -/
theorem namesFrom_emitEnumeration {name : String} {specifier : Cursor} {tail : List Capture}
    (areEnumerators : ∀ enumerator ∈ specifier.enumeratorNodes, enumerator.IsEnumerator)
    (body : enumerators specifier.focus = specifier.enumeratorNodes.map Cursor.focus)
    (names : before.NamesFrom origin) (isOrigin : MadeUp name ∨ origin .enumerations name)
    (members : ∀ enumerator ∈ specifier.enumeratorNodes, ∀ name values,
      enumerator.named = name :: values →
        origin .constants (bindingName (name.textIn bytes ++ pointersOf values)))
    (returns : (emitEnumeration name specifier.focus
      ((specifier.enumeratorNodes.flatMap Cursor.named).map (Cursor.leaf bytes) ++ tail)).Returns
        before value after) : after.NamesFrom origin := by
  refine (declaresUnder_emitEnumeration name specifier.focus _).namesFrom names isOrigin ?_ returns
  intro member isMember
  obtain ⟨kept, inside, rfl⟩ := List.mem_map.mp isMember
  obtain ⟨result, _, membersRead, isResult⟩ := mem_membersIn inside
  rw [body] at membersRead
  rcases name_of_mem_readMembers areEnumerators membersRead kept isResult with
    isNone | ⟨enumerator, isEntry, leaf, values, inOrder, named⟩
  · cases isNone
  · have isOrigin := members enumerator isEntry leaf values inOrder
    have plain : ∀ value ∈ values, value.kind ∈ Capture.declaratorNames → value.pointerDepth = 0 :=
      fun value isValue _ => (areEnumerators enumerator isEntry).pointerDepth_eq_zero
        (inOrder ▸ List.mem_cons_of_mem _ isValue)
    rw [pointersOf_of_plain plain, String.append_empty] at isOrigin
    rwa [named]

theorem namesFrom_declareEnumeration (finds : enumerationPattern.Finds alphabet none node)
    (names : before.NamesFrom origin) (origins : HasOrigins origin bytes node .declareEnumeration)
    (returns : (declareEnumeration node (node.capturesAfter bytes []).reverse).Returns
      before value after) : after.NamesFrom origin := by
  obtain ⟨leaves, _, areEnumerators, body⟩ := leaves_of_enumeration finds
  have members : ∀ enumerator ∈ node.enumeratorNodes, ∀ name values,
      enumerator.named = name :: values →
        origin .constants (bindingName (name.textIn bytes ++ pointersOf values)) :=
    fun _ inside _ _ inOrder => origins _ _ _ (.member (Or.inl ⟨rfl, rfl⟩) inside inOrder)
  have entries := drop_tag_of_enumeration bytes finds []
  rw [List.append_nil, ← captures_of_enumeration finds] at entries
  rw [declareEnumeration_eq] at returns
  rcases returns_declareSpecifier_iff.mp returns with
    ⟨hasName, first, isFirst, emitted⟩ | ⟨_, _, rfl⟩ | ⟨noName, _, name, between, made, emitted⟩
  · obtain ⟨tag, rest, others, tagged, inOrder, captured⟩ := firstCapture_of_tagged bytes leaves hasName
    rw [captured] at isFirst
    obtain ⟨⟩ := isFirst
    rw [if_pos hasName] at entries
    rw [entries] at emitted
    exact namesFrom_emitEnumeration areEnumerators body names
      (Or.inr (origins _ _ _ (.tag (by simp) tagged inOrder))) members emitted
  · exact names
  · obtain ⟨isMadeUp, kept⟩ := names.uniqueName (by decide) made
    rw [if_neg (by simp [noName]), List.drop_zero] at entries
    rw [entries] at emitted
    exact namesFrom_emitEnumeration areEnumerators body kept (Or.inl isMadeUp) members emitted

theorem namesFrom_declareTypedefEnumeration
    (finds : (typedefAround enumerationPattern).Finds alphabet none node)
    (names : before.NamesFrom origin)
    (origins : HasOrigins origin bytes node .declareTypedefEnumeration)
    (returns : (declareTypedefEnumeration node (node.capturesAfter bytes []).reverse).Returns
      before value after) : after.NamesFrom origin := by
  obtain ⟨specifier, name, isSpecifier, isName, leaves, captured, _, found⟩ :=
    captures_of_definedEnumeration bytes finds
  obtain ⟨_, _, areEnumerators, body⟩ := leaves_of_enumeration found
  have members : ∀ enumerator ∈ specifier.enumeratorNodes, ∀ name values,
      enumerator.named = name :: values →
        origin .constants (bindingName (name.textIn bytes ++ pointersOf values)) :=
    fun _ inside _ _ inOrder => origins _ _ _
      (.member (Or.inr ⟨rfl, isSpecifier ▸ List.mem_singleton_self specifier⟩) inside inOrder)
  have isOrigin := origins .enumerations name []
    (.defined (by simp) (isName ▸ List.mem_singleton_self name) leaves)
  rw [pointersOf, String.append_empty] at isOrigin
  unfold declareTypedefEnumeration at returns
  rw [Cursor.getLast?_captures leaves, Cursor.namedOfKind?_eq, isSpecifier, captured] at returns
  dsimp only [List.head?_cons, Option.map_some] at returns
  rw [drop_tag_of_enumeration bytes found] at returns
  exact namesFrom_emitEnumeration areEnumerators body names (Or.inr isOrigin) members returns

/-- An action that returns declares names with an origin. -/
theorem namesFrom_run
    (finds : ∀ pattern, (pattern, action) ∈ shapeList → pattern.Finds alphabet none node)
    (names : before.NamesFrom origin) (origins : HasOrigins origin bytes node action)
    (returns : (action.run (some node) (node.capturesAfter bytes []).reverse).Returns
      before value after) : after.NamesFrom origin := by
  cases action with
  | defineConstant =>
      exact namesFrom_defineConstant (noField_of_plain (by simp) finds) names origins returns
  | declareAlias =>
      exact namesFrom_declareAlias (noField_of_plain (by simp) finds) names origins returns
  | declareRecord => exact namesFrom_declareRecord (finds _ (by simp [shapeList])) names origins returns
  | declareTypedefRecord =>
      exact namesFrom_declareTypedefRecord (finds _ (by simp [shapeList])) names origins returns
  | declareEnumeration =>
      exact namesFrom_declareEnumeration (finds _ (by simp [shapeList])) names origins returns
  | declareTypedefEnumeration =>
      exact namesFrom_declareTypedefEnumeration (finds _ (by simp [shapeList])) names origins returns
  | declareFunction =>
      exact namesFrom_declareFunction (noField_of_plain (by simp) finds) names origins returns

theorem namesFrom_dispatch {captures : Option (List Capture)} (names : before.NamesFrom origin)
    (origins : ∀ action, Claims node action → HasOrigins origin bytes node action)
    (returns : (table.dispatch Rules.alphabet bytes Generation.runDefault node).Returns
      before captures after) : after.NamesFrom origin := by
  cases claimed : (table.claim? Rules.alphabet node).bind (·.entry.action) with
  | none => rwa [Table.eq_of_unclaimed claimed returns]
  | some action =>
      obtain ⟨finds, ran⟩ := returns_run_of_dispatch claimed returns
      exact namesFrom_run finds names (origins action claimed) ran

end

end Rules

theorem Offer.Pass.namesFrom {before after : Registry} {offers : List Offer}
    {origin : Category → String → Prop}
    (pass : Offer.Pass Rules.table Rules.alphabet before offers after)
    (origins : ∀ bytes node, Offer.node bytes node ∈ offers → ∀ action, Rules.Claims node action →
      Rules.HasOrigins origin bytes node action)
    (names : before.NamesFrom origin) : after.NamesFrom origin := by
  induction pass with
  | done => exact names
  | header _ ih =>
      exact ih (fun bytes node member => origins bytes node (List.mem_cons_of_mem _ member))
        (names.beginHeader _)
  | node returns _ ih =>
      exact ih (fun bytes node member => origins bytes node (List.mem_cons_of_mem _ member))
        (Rules.namesFrom_dispatch names (origins _ _ List.mem_cons_self) returns)

/-! ### The node that names -/

namespace Cursor.Names

variable {node leaf : Cursor} {action : Action} {category : Category} {rest : List Cursor}

theorem reaches (names : node.Names action category leaf rest) : node.Reaches leaf := by
  have listed : ∀ {other : List Cursor}, node.leaves = other → leaf ∈ other → node.Reaches leaf :=
    fun leaves member => (reaches_of_mem_leaves (leaves ▸ member)).1
  cases names with
  | macroName leaves => exact listed leaves List.mem_cons_self
  | second _ leaves => exact listed leaves (by simp)
  | tag _ _ leaves => exact listed leaves List.mem_cons_self
  | defined _ _ leaves => exact listed leaves (by simp)
  | @member _ specifier enumerator _ _ of inside inOrder =>
      obtain ⟨list, isList, isEntry⟩ := List.mem_flatMap.mp inside
      have below : specifier.Reaches leaf :=
        .head (mem_ofKinds.mp isList).1 (.head isEntry (.single (by rw [inOrder]; exact List.mem_cons_self)))
      rcases of with ⟨_, rfl⟩ | ⟨_, isBody⟩
      · exact below
      · exact .head (mem_ofKinds.mp isBody).1 below

/-- The enumerators that name members are well-formed. -/
theorem isEnumerator_of_claims {specifier enumerator : Cursor}
    (claimed : Rules.Claims node action)
    (of : action = .declareEnumeration ∧ specifier = node ∨
      action = .declareTypedefEnumeration ∧ specifier ∈ node.ofKinds ["enum_specifier"])
    (inside : enumerator ∈ specifier.enumeratorNodes) : enumerator.IsEnumerator := by
  rcases of with ⟨rfl, rfl⟩ | ⟨rfl, isBody⟩
  · obtain ⟨_, _, areEnumerators, _⟩ := Rules.leaves_of_enumeration
      (Rules.finds_of_claims claimed (by simp [Rules.shapeList]))
    exact areEnumerators enumerator inside
  · have finds : (Rules.typedefAround Rules.enumerationPattern).Finds Rules.alphabet none node :=
      Rules.finds_of_claims claimed (by simp [Rules.shapeList])
    obtain ⟨body, _, isSpecifier, _, _, _, found⟩ :=
      Rules.leaves_of_definition finds rfl (by decide)
    obtain rfl : specifier = body := List.mem_singleton.mp (isSpecifier ▸ isBody)
    obtain ⟨_, _, areEnumerators, _⟩ := Rules.leaves_of_enumeration found
    exact areEnumerators enumerator inside

/-- What names is an identifier, unless it is the second word of a type. -/
theorem kind (names : node.Names action category leaf rest) (claimed : Rules.Claims node action) :
    leaf.kind ∈ ["identifier", "type_identifier"] ∨
      action ∈ [.declareAlias, .declareFunction] ∧
        leaf.kind ∈ ["primitive_type", "sized_type_specifier"] := by
  have ofIdentifier : ∀ {parent : Cursor}, leaf ∈ parent.ofKinds ["type_identifier"] →
      leaf.kind ∈ ["identifier", "type_identifier"] := by
    intro parent member
    rw [List.mem_singleton.mp (mem_ofKinds.mp member).2]
    decide
  cases names with
  | macroName leaves =>
      obtain ⟨name, text, inOrder, isName, _⟩ := Rules.leaves_of_macro
        (Rules.finds_of_claims claimed (by simp [Rules.shapeList]))
      obtain ⟨rfl, _⟩ := List.cons_eq_cons.mp (leaves.symm.trans inOrder)
      exact Or.inl (by rw [isName]; decide)
  | second of leaves =>
      have kinds : ∀ entry ∈ Rules.shapeList, entry.2 ∈ [Action.declareAlias, .declareFunction] →
          ∀ kind ∈ (entry.1.descendants.flatMap (·.head.kinds)).filter Capture.isCaptured,
            kind ∈ ["identifier", "type_identifier"] ∨
              kind ∈ ["primitive_type", "sized_type_specifier"] := by
        decide
      have isAction : action ∈ [.declareAlias, .declareFunction] := by
        rcases of with _ | ⟨_, _ | ⟨_, ⟨⟩⟩⟩ <;> simp
      obtain ⟨pattern, isShape⟩ : ∃ pattern, (pattern, action) ∈ Rules.shapeList := by
        cases action <;> simp [Rules.shapeList]
      have member := Rules.kind_of_mem_leaves isShape (Rules.finds_of_claims claimed isShape)
        (leaves ▸ List.mem_cons_of_mem _ List.mem_cons_self : leaf ∈ node.leaves)
      exact (kinds _ isShape isAction _ member).imp_right fun isWord => ⟨isAction, isWord⟩
  | tag _ tagged _ => exact Or.inl (ofIdentifier tagged)
  | defined _ isName _ => exact Or.inl (ofIdentifier isName)
  | member of inside inOrder =>
      obtain ⟨name, values, named, _, isName⟩ := (isEnumerator_of_claims claimed of inside).inOrder
      obtain ⟨rfl, _⟩ := List.cons_eq_cons.mp (inOrder.symm.trans named)
      exact Or.inl (by rw [isName]; decide)

/-- Only after the name of a type definition or of a function, and after the tag of a record, may there be
pointers. -/
theorem pointersOf_eq (names : node.Names action category leaf rest)
    (claimed : Rules.Claims node action)
    (other : action ∉ [.declareAlias, .declareFunction, .declareRecord]) : pointersOf rest = "" := by
  cases names with
  | macroName leaves =>
      obtain ⟨name, text, inOrder, _, isText⟩ := Rules.leaves_of_macro
        (Rules.finds_of_claims claimed (by simp [Rules.shapeList]))
      obtain ⟨_, rfl⟩ := List.cons_eq_cons.mp (leaves.symm.trans inOrder)
      exact pointersOf_of_plain (by simp [isText, Capture.declaratorNames])
  | second of leaves =>
      rcases of with _ | ⟨_, _ | ⟨_, ⟨⟩⟩⟩ <;> simp at other
  | tag of tagged leaves =>
      rcases of with _ | ⟨_, _ | ⟨_, ⟨⟩⟩⟩
      · simp at other
      · apply pointersOf_of_plain
        intro next isNext _
        have finds : Rules.enumerationPattern.Finds Rules.alphabet none node :=
          Rules.finds_of_claims claimed (by simp [Rules.shapeList])
        exact (Rules.plain_of_enumeration finds (leaves ▸ List.mem_cons_of_mem _ isNext)).2
  | defined => rfl
  | member of inside inOrder =>
      apply pointersOf_of_plain
      intro value isValue _
      exact (isEnumerator_of_claims claimed of inside).pointerDepth_eq_zero
        (inOrder ▸ List.mem_cons_of_mem _ isValue)

end Cursor.Names

/-! ### Names of a session -/

/-- Pointers are a blank and stars. -/
theorem star_mem_pointersOf {leaves : List Cursor} (pointed : pointersOf leaves ≠ "") :
    '*' ∈ (pointersOf leaves).toList := by
  unfold pointersOf at pointed ⊢
  split at pointed
  · exact absurd rfl pointed
  · split at pointed
    · rename_i isName
      rw [if_pos isName]
      unfold Capture.stars at pointed ⊢
      split at pointed
      · exact absurd rfl pointed
      · rename_i deep
        rw [if_neg deep, String.toList_ofList]
        exact List.mem_cons_of_mem _ (List.mem_replicate.mpr ⟨by simpa using deep, rfl⟩)
    · exact absurd rfl pointed

/-- A name with pointers after it is not plain, and one without is as plain as its text. -/
theorem plain_bindingName_iff {text : String} {leaves : List Cursor} (plain : Plain text) :
    Plain (bindingName (text ++ pointersOf leaves)) ↔ pointersOf leaves = "" := by
  constructor
  · intro plainName
    by_contra pointed
    have star : '*' ∈ (bindingName (text ++ pointersOf leaves)).toList := by
      rw [star_mem_bindingName_iff, String.toList_append]
      exact List.mem_append_right _ (star_mem_pointersOf pointed)
    exact (plainName '*' star).2 rfl
  · intro none_
    rw [none_, String.append_empty]
    exact plain_bindingName plain

/-- A document names something by a captured node of a node that an action claims, with the captured nodes
that follow. -/
structure Document.Names (document : Document) (action : Action) (category : Category)
    (leaf : Cursor) (rest : List Cursor) : Prop where
  leaf_mem : leaf ∈ (Cursor.root document.tree).walk
  claimed : ∃ node ∈ (Cursor.root document.tree).walk,
    Rules.Claims node action ∧ node.Names action category leaf rest

namespace Session

/-- Every name that a session declares is made up, or is the bound name of the text of one captured node
with the pointers that the node captured next leaves there. The node is an identifier, unless it is the
second word of the type of a type definition or a function; and pointers come only after the name of a type
definition or of a function, or after the tag of a record. So a name whose node has neither a blank nor a
star in its text has none itself, exactly if no pointers are left there. -/
theorem Generated.declared_name_origin {requests : List Request} {registry : Registry} {usual : Mode}
    {category : Category} {name : String}
    (generated : Generated Rules.table Rules.alphabet usual requests registry)
    (declared : registry.isDeclared category name = true) :
    MadeUp name ∨ ∃ request ∈ requests, ∃ action leaf rest,
      request.document.Names action category leaf rest ∧
      name = bindingName (leaf.textIn request.document.bytes ++ pointersOf rest) ∧
      (leaf.kind ∈ ["identifier", "type_identifier"] ∨
        action ∈ [.declareAlias, .declareFunction] ∧
          leaf.kind ∈ ["primitive_type", "sized_type_specifier"]) ∧
      (pointersOf rest = "" ∨ action ∈ [.declareAlias, .declareFunction, .declareRecord]) ∧
      (Plain (leaf.textIn request.document.bytes) → (Plain name ↔ pointersOf rest = "")) := by
  have origins : ∀ bytes node, Offer.node bytes node ∈ requests.flatMap Request.offers →
      ∀ action, Rules.Claims node action → Rules.HasOrigins (fun category name =>
        ∃ request ∈ requests, ∃ action leaf rest,
          request.document.Names action category leaf rest ∧
          name = bindingName (leaf.textIn request.document.bytes ++ pointersOf rest))
        bytes node action := by
    intro bytes node offered action claimed category leaf rest names
    obtain ⟨request, isRequest, rfl, inside⟩ := Request.mem_offers_iff.mp offered
    refine ⟨request, isRequest, action, leaf, rest, ⟨?_, node, inside, claimed, names⟩, rfl⟩
    exact Cursor.mem_walk_iff.mpr ((Cursor.mem_walk_iff.mp inside).trans names.reaches)
  refine ((generated.pass.namesFrom origins .empty).declared declared).imp_right ?_
  rintro ⟨request, isRequest, action, leaf, rest, names, rfl⟩
  obtain ⟨node, _, claimed, here⟩ := names.claimed
  refine ⟨request, isRequest, action, leaf, rest, names, rfl, here.kind claimed, ?_,
    plain_bindingName_iff⟩
  by_cases pointed : action ∈ [.declareAlias, .declareFunction, .declareRecord]
  · exact Or.inr pointed
  · exact Or.inl (here.pointersOf_eq claimed pointed)

/-- A type definition with two declarators: `typedef int a, *b;`. -/
def twoDeclarators : Document where
  bytes := "typedef int a, *b;".toUTF8.toList
  tree := .node ⟨"translation_unit", 0, 18, none⟩ [
    .node ⟨"type_definition", 0, 18, none⟩ [
      .node ⟨"primitive_type", 8, 11, some "type"⟩ [],
      .node ⟨"type_identifier", 12, 13, some "declarator"⟩ [],
      .node ⟨"pointer_declarator", 15, 17, some "declarator"⟩ [
        .node ⟨"type_identifier", 16, 17, some "declarator"⟩ []]]]
  hasError := false

/-- What the type definition with two declarators leaves. -/
def afterTwoDeclarators : Registry :=
  ⟨"p.h", ["p.h"], ⟨[], ["a *"], [], []⟩,
    ⟨[], [.typeAlias ⟨"a *", .named "ctypes.c_int", "p.h", false⟩], [], []⟩, [], []⟩

theorem generated_twoDeclarators :
    Generated Rules.table Rules.alphabet .c ([] ++ [⟨"", "p.h", twoDeclarators⟩])
      afterTwoDeclarators := by
  have returns : (Generation.generate (m := Run) Rules.table Rules.alphabet Generation.runDefault .c
      "" "p.h" twoDeclarators).Returns .empty 1 afterTwoDeclarators := by
    rw [Rules.table_eq, Rules.alphabet_eq]
    decide +kernel
  exact .more .nothing returns

theorem not_madeUp_twoDeclarators : ¬ MadeUp "a *" := by
  rintro ⟨stem, isStem, number, same⟩
  have first := congrArg (fun text => text.toList.head?) same
  have stems : ∀ stem ∈ madeUpStems, stem.toList.head? = some 'A' := by decide
  simp [stems stem isStem] at first

/-- No node of the two declarators is bound by its own text alone under the name that is declared. -/
theorem unbound_twoDeclarators : ∀ node ∈ (Cursor.root twoDeclarators.tree).walk,
    bindingName (node.textIn twoDeclarators.bytes) ≠ "a *" := by
  decide +kernel

/-- The name of the first of two declarators is declared with the pointer of the second one. -/
theorem Generated.declared_name_origin_twoDeclarators :
    ∃ requests registry, Generated Rules.table Rules.alphabet .c requests registry ∧
      registry.isDeclared .types "a *" = true ∧
      ∃ request ∈ requests, ∃ action leaf rest, request.document.Names action .types leaf rest ∧
        "a *" = bindingName (leaf.textIn request.document.bytes ++ pointersOf rest) ∧
        pointersOf rest ≠ "" ∧ action ∈ [.declareAlias, .declareFunction, .declareRecord] := by
  have declared : afterTwoDeclarators.isDeclared .types "a *" = true := by decide
  have generated := generated_twoDeclarators
  refine ⟨_, _, generated, declared, ?_⟩
  rcases Generated.declared_name_origin generated declared with
    isMadeUp | ⟨request, isRequest, action, leaf, rest, names, spelled, _, pointed, _⟩
  · exact absurd isMadeUp not_madeUp_twoDeclarators
  · obtain rfl := List.mem_singleton.mp isRequest
    have hasPointers : pointersOf rest ≠ "" := by
      intro none_
      rw [none_, String.append_empty] at spelled
      exact unbound_twoDeclarators leaf names.leaf_mem spelled.symm
    exact ⟨_, isRequest, action, leaf, rest, names, spelled, hasPointers,
      pointed.resolve_left hasPointers⟩

/-- A session may declare a name with a blank and a star, which is neither made up nor the bound name of any
node's text, although all identifiers of the document are plain. -/
theorem not_plain_declared_twoDeclarators :
    ∃ requests registry, Generated Rules.table Rules.alphabet .c requests registry ∧
      registry.isDeclared .types "a *" = true ∧ ¬ Plain "a *" ∧ ¬ MadeUp "a *" ∧
      ∀ request ∈ requests, ∀ node ∈ (Cursor.root request.document.tree).walk,
        (node.kind ∈ ["identifier", "field_identifier", "type_identifier"] →
          Plain (Document.textOf request.document.bytes node)) ∧
        bindingName (Document.textOf request.document.bytes node) ≠ "a *" :=
  ⟨_, _, generated_twoDeclarators, by decide, by decide, not_madeUp_twoDeclarators, by decide +kernel⟩

end Session

end HeaderBindings
