/-
Module: HeaderBindings.Proofs.ActionSteps
Purpose: What each action does to the registry when it returns: it takes in one declaration, after a name
  may have been made up for it, or changes nothing.
Main exports: Run.returns_declaring_iff, Run.DeclaresUnder, returns_declareSpecifier_iff,
  returns_emitRecord_iff, Acts, Action.acts, Acts.steps
-/
import HeaderBindings.Binding.Action
import HeaderBindings.Proofs.Additions
import HeaderBindings.Proofs.NumberedNames

namespace HeaderBindings

open Spelling

namespace Run

variable {α β : Type} {before after : Registry}

/-! ### Steps that change nothing -/

/-- Whenever a step returns, the registry is as it was. -/
def ChangesNothing (step : Run α) : Prop :=
  ∀ before value after, step.Returns before value after → after = before

namespace ChangesNothing

theorem pure {value : α} : ChangesNothing (Pure.pure value : Run α) :=
  fun _ _ _ returns => (returns_pure_iff.mp returns).2

theorem get : ChangesNothing (MonadState.get : Run Registry) :=
  fun _ _ _ returns => (returns_get_iff.mp returns).2

theorem ofExcept {ε : Type} {fault : ε → RunFault} {result : Except ε α} :
    ChangesNothing (Run.ofExcept fault result) :=
  fun _ _ _ returns => (returns_ofExcept_iff.mp returns).2

theorem decimal {n : Int} : ChangesNothing (Run.decimal n) :=
  fun _ _ _ returns => (returns_decimal_iff.mp returns).2

theorem bind {first : Run α} {next : α → Run β} (head : ChangesNothing first)
    (rest : ∀ value, ChangesNothing (next value)) : ChangesNothing (first >>= next) := by
  intro before value after returns
  obtain ⟨middle, between, one, two⟩ := returns_bind_iff.mp returns
  exact (rest middle _ _ _ two).trans (head _ _ _ one)

end ChangesNothing

theorem changesNothing_constantNumber (name : String) : ChangesNothing (constantNumber name) := by
  refine ChangesNothing.get.bind fun registry => ?_
  split
  · exact .ofExcept
  · exact .pure

theorem changesNothing_namedValue (known : List (String × Int)) (next : Int) (spelled : String) :
    ChangesNothing (namedValue known next spelled) := by
  refine (changesNothing_constantNumber _).bind fun macroNumber => ?_
  split
  · exact .pure
  · refine ChangesNothing.get.bind fun registry => ?_
    split
    · exact .pure
    · exact ChangesNothing.decimal.bind fun _ => .pure

theorem changesNothing_explicitValue (known : List (String × Int)) (next : Int)
    (capture : Capture) : ChangesNothing (explicitValue known next capture) := by
  refine ChangesNothing.ofExcept.bind fun number => ?_
  split
  · exact changesNothing_namedValue known next capture.text
  · split
    · exact .pure
    · split
      · exact ChangesNothing.decimal.bind fun _ => .pure
      · exact .pure

/-! ### Steps that return one value -/

/-- Whenever a step returns, whatever the registry was, it returns the same value. -/
def Fixed (step : Run α) : Prop :=
  ∃ value, ∀ before result after, step.Returns before result after → result = value

namespace Fixed

theorem pure {value : α} : Fixed (Pure.pure value : Run α) :=
  ⟨value, fun _ _ _ returns => (returns_pure_iff.mp returns).1⟩

theorem bind {first : Run α} {next : α → Run β} (head : Fixed first)
    (rest : ∀ value, Fixed (next value)) : Fixed (first >>= next) := by
  obtain ⟨middle, isMiddle⟩ := head
  obtain ⟨value, isValue⟩ := rest middle
  refine ⟨value, ?_⟩
  intro before result after returns
  obtain ⟨other, between, one, two⟩ := returns_bind_iff.mp returns
  obtain rfl := isMiddle _ _ _ one
  exact isValue _ _ _ two

theorem resolve {spelled : String} : Fixed (Run.resolve spelled) := by
  refine ⟨(typeExpr spelled).toOption.getD none, ?_⟩
  intro before result after returns
  rw [(returns_resolve_iff.mp returns).1]
  rfl

theorem target {spelled : String} : Fixed (Run.target spelled) :=
  resolve.bind fun _ => pure

end Fixed

/-! ### Declaring under a name

Every action declares under a name in the same way: without a name, or with one that is reserved,
nothing happens. -/

theorem returns_declaring_iff {category : Category} {name : String} {body : Run Unit} {value : Unit} :
    (if name.isEmpty then pure ()
      else declare category name >>= fun free => if free then body else pure () : Run Unit).Returns
        before value after ↔
      (name = "" ∨ before.isDeclared category name = true) ∧ after = before ∨
      name ≠ "" ∧ before.isDeclared category name = false ∧
        body.Returns (before.reserve category name) value after := by
  split
  · rename_i empty
    have unnamed : name = "" := by simpa using empty
    simp [unnamed]
  · rename_i nonempty
    have named : name ≠ "" := by simpa using nonempty
    rw [returns_bind_iff]
    constructor
    · rintro ⟨free, between, declared, rest⟩
      rcases returns_declare_iff.mp declared with ⟨isFree, rfl, rfl⟩ | ⟨reserved, rfl, rfl⟩
      · exact Or.inr ⟨named, isFree, rest⟩
      · exact Or.inl ⟨Or.inr reserved, (returns_pure_iff.mp rest).2⟩
    · rintro (⟨blocked, rfl⟩ | ⟨_, isFree, rest⟩)
      · have reserved := blocked.resolve_left named
        exact ⟨false, after, returns_declare_iff.mpr (Or.inr ⟨reserved, rfl, rfl⟩),
          returns_pure_iff.mpr ⟨rfl, rfl⟩⟩
      · exact ⟨true, _, returns_declare_iff.mpr (Or.inl ⟨isFree, rfl, rfl⟩), rest⟩

end Run

open Run

variable {before after : Registry} {value : Unit}

theorem currentHeader_referAll (registry : Registry) (names : List String) :
    (registry.referAll names).currentHeader = registry.currentHeader := by
  rw [Registry.referAll_frame]

/-- A step that takes in one declaration, or changes nothing. -/
def TakesInOne (before after : Registry) : Prop :=
  after = before ∨ ∃ declaration, before.Admits declaration ∧ after = before.takeIn declaration

theorem TakesInOne.steps (one : TakesInOne before after) : Registry.Steps before after := by
  rcases one with rfl | ⟨declaration, admits, rfl⟩
  · exact .refl
  · exact .single (.admitted admits)

/-- A step declares under a name of a category: without a name, or with one that is reserved, it returns
and changes nothing; otherwise, if it returns, it takes in what is made of the registry. -/
structure Run.DeclaresUnder (category : Category) (name : String) (made : Registry → Declaration)
    (step : Run Unit) : Prop where
  isCategory : ∀ registry, (made registry).category = category
  isName : ∀ registry, (made registry).name = name
  blocked : ∀ registry, name = "" ∨ registry.isDeclared category name = true →
    step.Returns registry () registry
  takesIn : ∀ {before value after}, step.Returns before value after →
    (name = "" ∨ before.isDeclared category name = true) ∧ after = before ∨
    before.Admits (made before) ∧ after = before.takeIn (made before)

namespace Run.DeclaresUnder

variable {category : Category} {name : String} {made : Registry → Declaration} {step body : Run Unit}

theorem takesInOne (declares : DeclaresUnder category name made step)
    (returns : step.Returns before value after) : TakesInOne before after := by
  rcases declares.takesIn returns with ⟨_, same⟩ | taken
  · exact Or.inl same
  · exact Or.inr ⟨made before, taken⟩

theorem of_body (isCategory : ∀ registry, (made registry).category = category)
    (isName : ∀ registry, (made registry).name = name)
    (emits : ∀ {before : Registry} {value : Unit} {after : Registry},
      name ≠ "" → before.isDeclared category name = false →
      body.Returns (before.reserve category name) value after →
      before.Admits (made before) ∧ after = before.takeIn (made before)) :
    DeclaresUnder category name made (if name.isEmpty then pure ()
      else declare category name >>= fun free => if free then body else pure ()) where
  isCategory
  isName
  blocked _ blocked := returns_declaring_iff.mpr (Or.inl ⟨blocked, rfl⟩)
  takesIn returns := by
    rcases returns_declaring_iff.mp returns with blocked | ⟨named, free, emitted⟩
    · exact Or.inl blocked
    · exact Or.inr (emits named free emitted)

end Run.DeclaresUnder

/-- Of the registry, only the current header matters for what is made of it. -/
def Settled (made : Registry → Declaration) : Prop :=
  ∀ one other : Registry, one.currentHeader = other.currentHeader → made one = made other

/-- What an action, if there is one, comes to for a node: it does nothing, it cannot return, or it declares
under a name, which is given, or made up for a specifier without tag that no type definition names. -/
inductive Acts (action : Option Action) (cursor : Cursor) (step : Run Unit) : Prop where
  | idle (returns_iff : ∀ {before value after}, step.Returns before value after ↔ after = before)
  | fails (never : ∀ {before value after}, ¬ step.Returns before value after)
  | given {category : Category} {name : String} (made : Registry → Declaration)
      (settled : category ≠ .enumerations → Settled made)
      (declares : DeclaresUnder category name made step)
  | madeUp {category : Category} {stem : String} {body : String → Run Unit} 
      (untagged : cursor.focus.hasName = false) (outside : cursor.underTypedef = false)
      (of : (action, category) ∈
        [(some Action.declareRecord, Category.types), (some .declareEnumeration, .enumerations)])
      (returns_iff : ∀ {before value after}, step.Returns before value after ↔ ∃ name between,
        (name, between) = before.uniqueName category stem (some cursor.spanKey) ∧
        (body name).Returns between value after)
      (declares : ∀ name, ∃ made, DeclaresUnder category name made (body name))

section

variable {action : Option Action} {cursor : Cursor} {captures : List Capture}

theorem acts_pure : Acts action cursor (pure ()) := by
  apply Acts.idle
  intro before value after
  rw [returns_pure_iff, and_iff_right rfl]

/-- A step that starts with a capture goes on with it, or cannot return. -/
theorem acts_capture_bind {index : Nat} {next : Capture → Run Unit}
    (acts : ∀ first, Acts action cursor (next first)) :
    Acts action cursor (Run.capture captures index >>= next) := by
  cases isFirst : captures[index]? with
  | none =>
      apply Acts.fails
      intro before value after returns
      obtain ⟨_, captured, _⟩ := returns_capture_bind_iff.mp returns
      rw [isFirst] at captured
      cases captured
  | some first =>
      rw [capture_bind_eq isFirst]
      exact acts first

/-! ### Specifiers with a body -/

/-- How a specifier with a body is declared: under its tag; if it has none, not at all if a type definition
names it, and else under a name that is made up. -/
def declareSpecifier (cursor : Cursor) (category : Category) (stem : String) (captures : List Capture)
    (tagged : Capture → Run Unit) (untagged : String → Run Unit) : Run Unit :=
  if cursor.focus.hasName then capture captures 0 >>= tagged
  else if cursor.underTypedef then pure ()
  else (modifyGet fun registry : Registry =>
    registry.uniqueName category stem (some cursor.spanKey)) >>= untagged

theorem declareRecord_eq (cursor : Cursor) (captures : List Capture) :
    declareRecord cursor captures = declareSpecifier cursor .types
      (if cursor.focus.isUnion then "AnonUnion" else "AnonStruct") captures
      (fun tag => emitRecord (bindingName tag.text)
        ((if cursor.focus.isUnion then "union " else "struct ") ++ tag.text) cursor.focus.isUnion
        (captures.drop 1))
      (fun name => emitRecord name "" cursor.focus.isUnion captures) :=
  rfl

theorem declareEnumeration_eq (cursor : Cursor) (captures : List Capture) :
    declareEnumeration cursor captures = declareSpecifier cursor .enumerations "AnonEnum" captures
      (fun tag => emitEnumeration (bindingName tag.text) cursor.focus (captures.drop 1))
      (fun name => emitEnumeration name cursor.focus captures) :=
  rfl

section

variable {category : Category} {stem : String} {tagged : Capture → Run Unit}
  {untagged : String → Run Unit}

theorem declareSpecifier_of_tag {tag : Capture} (hasName : cursor.focus.hasName = true)
    (isTag : captures[0]? = some tag) :
    declareSpecifier cursor category stem captures tagged untagged = tagged tag := by
  rw [declareSpecifier, if_pos hasName, capture_bind_eq isTag]

theorem returns_declareSpecifier_iff :
    (declareSpecifier cursor category stem captures tagged untagged).Returns before value after ↔
      (cursor.focus.hasName = true ∧
        ∃ tag, captures[0]? = some tag ∧ (tagged tag).Returns before value after) ∨
      (cursor.focus.hasName = false ∧ cursor.underTypedef = true ∧ after = before) ∨
      (cursor.focus.hasName = false ∧ cursor.underTypedef = false ∧ ∃ name between,
        (name, between) = before.uniqueName category stem (some cursor.spanKey) ∧
        (untagged name).Returns between value after) := by
  unfold declareSpecifier
  cases cursor.focus.hasName with
  | true => simp [returns_capture_bind_iff]
  | false =>
      cases cursor.underTypedef with
      | true => simp
      | false => simp [returns_bind_iff]

theorem returns_declareSpecifier_of_untagged {name : String} {between : Registry}
    (noName : cursor.focus.hasName = false) (outside : cursor.underTypedef = false)
    (made : (name, between) = before.uniqueName category stem (some cursor.spanKey)) :
    (declareSpecifier cursor category stem captures tagged untagged).Returns before value after ↔
      (untagged name).Returns between value after := by
  simp [returns_declareSpecifier_iff, noName, outside, ← made]

theorem acts_declareSpecifier (actsTagged : ∀ tag, Acts action cursor (tagged tag))
    (of : (action, category) ∈
      [(some Action.declareRecord, Category.types), (some .declareEnumeration, .enumerations)])
    (declares : ∀ name, ∃ made, DeclaresUnder category name made (untagged name)) :
    Acts action cursor (declareSpecifier cursor category stem captures tagged untagged) := by
  cases noName : cursor.focus.hasName with
  | true =>
      rw [declareSpecifier, if_pos noName]
      exact acts_capture_bind actsTagged
  | false =>
      cases outside : cursor.underTypedef with
      | true =>
          rw [declareSpecifier, if_neg (by simp [noName]), if_pos outside]
          exact acts_pure
      | false =>
          have returns_iff : ∀ {before value after},
              (declareSpecifier cursor category stem captures tagged untagged).Returns before value after ↔
                ∃ name between, (name, between) = before.uniqueName category stem (some cursor.spanKey) ∧
                  (untagged name).Returns between value after := by
            intro before value after
            simp [returns_declareSpecifier_iff, noName, outside]
          exact .madeUp noName outside of returns_iff declares

end

/-- A declaration without members is taken in under a free name. -/
theorem admits_of_free {declaration : Declaration} {category : Category} {name : String}
    (used : List String) (named : name ≠ "") (free : before.isDeclared category name = false)
    (left : after = ((before.reserve category name).referAll used).emit category declaration)
    (isCategory : declaration.category = category) (isName : declaration.name = name)
    (isUsed : declaration.references = used) (plain : declaration.memberNames = [])
    (here : declaration.header = before.currentHeader)
    (opaqueTarget : ∀ typeAlias, declaration = .typeAlias typeAlias → typeAlias.isOpaque = true →
      typeAlias.target = HeaderBindings.opaqueTarget) :
    before.Admits declaration ∧ after = before.takeIn declaration := by
  subst isCategory isName isUsed
  have admits : before.Admits declaration := {
    named
    free
    membersNamed := by simp [plain]
    membersFree := by simp [plain]
    membersDistinct := by simp [plain]
    here
    opaqueTarget }
  refine ⟨admits, ?_⟩
  rw [left, Registry.takeIn, plain]
  rfl

/-! ### Macros and type definitions -/

/-- A macro with a literal declares its name; one without changes nothing. -/
theorem declaresUnder_defineConstant (first second : Capture) (rest : List Capture)
    {literal : String} (isLiteral : literal? second.text = some literal) :
    ∃ made, Settled made ∧
      (∀ registry, made registry
        = .constant ⟨bindingName first.text, literal, registry.currentHeader⟩) ∧
      DeclaresUnder .constants (bindingName first.text) made
        (defineConstant (first :: second :: rest)) := by
  unfold defineConstant
  dsimp only
  generalize bindingName first.text = name
  rw [isLiteral]
  refine ⟨fun registry => .constant ⟨name, literal, registry.currentHeader⟩, ?_, ?_, ?_⟩
  · intro one other same
    simp only [same]
  · intro registry
    rfl
  · apply DeclaresUnder.of_body
    · intro registry
      rfl
    · intro registry
      rfl
    · intro before value after named free emitted
      obtain ⟨_, _, read, left⟩ := returns_bind_iff.mp emitted
      obtain ⟨rfl, rfl⟩ := returns_get_iff.mp read
      exact admits_of_free [] named free (returns_emit_iff.mp left) rfl rfl rfl rfl rfl
        (by simp)

theorem defineConstant_eq_pure (first second : Capture) (rest : List Capture)
    (notLiteral : literal? second.text = none) :
    defineConstant (first :: second :: rest) = pure () := by
  unfold defineConstant
  dsimp only
  rw [notLiteral]

/-- Without two captures nothing is declared. -/
theorem eq_pure_of_short (short : captures.length < 2) : defineConstant captures = pure () ∧
    declareAlias captures = pure () ∧ declareFunction captures = pure () := by
  match captures, short with
  | [], _ | [_], _ => exact ⟨rfl, rfl, rfl⟩

theorem acts_defineConstant : Acts action cursor (defineConstant captures) := by
  match captures with
  | [] | [_] => exact acts_pure
  | first :: second :: rest =>
      cases isLiteral : literal? second.text with
      | none => exact defineConstant_eq_pure first second rest isLiteral ▸ acts_pure
      | some literal =>
          obtain ⟨made, settled, _, declares⟩ :=
            declaresUnder_defineConstant first second rest isLiteral
          exact .given made (fun _ => settled) declares

/-- A type definition declares the name that its second capture spells, as a further name of a type. -/
theorem declaresUnder_declareAlias (first second : Capture) (rest : List Capture) :
    ∃ made, Settled made ∧ (∀ registry, ∃ typeAlias, made registry = .typeAlias typeAlias) ∧
      DeclaresUnder .types (bindingName second.text) made
        (declareAlias (first :: second :: rest)) := by
  unfold declareAlias
  dsimp only
  generalize bindingName second.text = name
  generalize splitPointer first.text = parts
  obtain ⟨base, depth⟩ := parts
  obtain ⟨spelled, isSpelled⟩ : Fixed (Run.target first.text) := .target
  refine ⟨fun registry =>
    if depth == 0 && bindingName base == name then
      .typeAlias ⟨name, opaqueTarget, registry.currentHeader, true⟩
    else .typeAlias ⟨name, spelled, registry.currentHeader, false⟩, ?_, ?_, ?_⟩
  · intro one other same
    simp only [same]
  · intro registry
    dsimp only
    split <;> exact ⟨_, rfl⟩
  · apply DeclaresUnder.of_body
    · intro registry
      split <;> rfl
    · intro registry
      split <;> rfl
    · intro before value after named free body
      dsimp only at body
      split at body
      · rename_i isOpaque
        rw [if_pos isOpaque]
        obtain ⟨_, _, read, left⟩ := returns_bind_iff.mp body
        obtain ⟨rfl, rfl⟩ := returns_get_iff.mp read
        have notOther : ∀ typeAlias, Declaration.typeAlias ⟨name, opaqueTarget,
            before.currentHeader, true⟩ = .typeAlias typeAlias → typeAlias.isOpaque = true →
            typeAlias.target = opaqueTarget := by
          rintro _ ⟨rfl⟩ _
          rfl
        have used : (Declaration.typeAlias ⟨name, opaqueTarget, before.currentHeader,
            true⟩).references = [] := by
          rw [Declaration.references_typeAlias, reference?_opaqueTarget]
          rfl
        exact admits_of_free [] named free (returns_emit_iff.mp left) rfl rfl used rfl rfl notOther
      · rename_i isPlain
        rw [if_neg isPlain]
        obtain ⟨target, between, resolved, rest⟩ := returns_bind_iff.mp body
        obtain rfl := isSpelled _ _ _ resolved
        obtain ⟨_, rfl⟩ := returns_target_iff.mp resolved
        obtain ⟨_, _, read, left⟩ := returns_bind_iff.mp rest
        obtain ⟨rfl, rfl⟩ := returns_get_iff.mp read
        rw [currentHeader_referAll] at left
        exact admits_of_free _ named free (returns_emit_iff.mp left) rfl rfl
          (Declaration.references_typeAlias _) rfl rfl (by rintro _ ⟨rfl⟩ ⟨⟩)

theorem acts_declareAlias : Acts action cursor (declareAlias captures) := by
  match captures with
  | [] | [_] => exact acts_pure
  | first :: second :: rest =>
      obtain ⟨made, settled, _, declares⟩ := declaresUnder_declareAlias first second rest
      exact .given made (fun _ => settled) declares

/-! ### Fields and parameters

Entries that are read one after another each note the type that they use. -/

/-- Entries are added after those that are known, and the types they use are noted. -/
def AddsNoting {α : Type} (typeOf : α → TypeExpr) (known result : List α)
    (before after : Registry) : Prop :=
  ∃ new, result = known ++ new ∧
    after = before.referAll (new.filterMap fun entry => (typeOf entry).reference?)

namespace AddsNoting

variable {α : Type} {typeOf : α → TypeExpr} {known middle result : List α} {between : Registry}

theorem refl (typeOf : α → TypeExpr) (known : List α) (registry : Registry) :
    AddsNoting typeOf known known registry registry :=
  ⟨[], by simp, rfl⟩

theorem one (typeOf : α → TypeExpr) (known : List α) (registry : Registry) (entry : α) :
    AddsNoting typeOf known (known ++ [entry]) registry
      (registry.referAll (typeOf entry).reference?.toList) := by
  refine ⟨[entry], rfl, ?_⟩
  cases used : (typeOf entry).reference? <;> simp [used]

theorem trans (first : AddsNoting typeOf known middle before between)
    (second : AddsNoting typeOf middle result between after) :
    AddsNoting typeOf known result before after := by
  obtain ⟨new, rfl, rfl⟩ := first
  obtain ⟨newer, rfl, rfl⟩ := second
  refine ⟨new ++ newer, by rw [List.append_assoc], ?_⟩
  rw [List.filterMap_append, Registry.referAll_append]

end AddsNoting

theorem subset_fieldTail (captures : List Capture) : (fieldTail captures).2 ⊆ captures := by
  intro capture member
  apply (List.dropWhile_sublist Capture.isArrayLength).subset
  unfold fieldTail takeBitWidth at member
  split at member
  · cases member
  · rename_i first rest isRest
    rw [isRest]
    split at member
    · exact List.mem_cons_of_mem _ member
    · exact member

theorem addsNoting_readFields {known result : List Field} {captures : List Capture}
    (returns : (readFields known captures).Returns before result after) :
    AddsNoting Field.type known result before after := by
  induction known, captures using readFields.induct generalizing before with
  | case1 known type next rest padding named =>
      rw [readFields] at returns
      obtain ⟨target, between, resolved, later⟩ := returns_bind_iff.mp returns
      obtain ⟨_, rfl⟩ := returns_target_iff.mp resolved
      split at later
      · exact (AddsNoting.one Field.type known before
          ⟨_, target, none, some next.bitWidth⟩).trans (padding target later)
      · exact (AddsNoting.one Field.type known before
          ⟨bindingName next.text, target, _, _⟩).trans (named target later)
  | case2 known captures short =>
      rw [readFields] at returns
      · obtain ⟨rfl, rfl⟩ := returns_pure_iff.mp returns
        exact .refl _ _ _
      · exact short

theorem fixed_readFields (known : List Field) (captures : List Capture) :
    Fixed (readFields known captures) := by
  induction known, captures using readFields.induct with
  | case1 known type next rest padding named =>
      rw [readFields]
      refine Fixed.target.bind fun target => ?_
      split
      · exact padding target
      · exact named target
  | case2 known captures short =>
      rw [readFields]
      · exact .pure
      · exact short

theorem addsNoting_addParameter {known result : List Parameter} {type name : String}
    (returns : (readParameters.addParameter known type name).Returns before result after) :
    AddsNoting Parameter.type known result before after := by
  unfold readParameters.addParameter at returns
  split at returns
  · obtain ⟨rfl, rfl⟩ := returns_pure_iff.mp returns
    exact .refl _ _ _
  · obtain ⟨target, between, resolved, rest⟩ := returns_bind_iff.mp returns
    obtain ⟨_, rfl⟩ := returns_target_iff.mp resolved
    obtain ⟨rfl, rfl⟩ := returns_pure_iff.mp rest
    exact .one Parameter.type known before ⟨_, target⟩

theorem fixed_addParameter (known : List Parameter) (type name : String) :
    Fixed (readParameters.addParameter known type name) := by
  unfold readParameters.addParameter
  split
  · exact .pure
  · exact Fixed.target.bind fun _ => .pure

theorem addsNoting_readParameters {known result : List Parameter} {captures : List Capture}
    (returns : (readParameters known captures).Returns before result after) :
    AddsNoting Parameter.type known result before after := by
  induction known, captures using readParameters.induct generalizing before with
  | case1 known =>
      obtain ⟨rfl, rfl⟩ := returns_pure_iff.mp returns
      exact .refl _ _ _
  | case2 known type name rest isName ih =>
      rw [readParameters, if_pos isName] at returns
      obtain ⟨middle, between, added, later⟩ := returns_bind_iff.mp returns
      exact (addsNoting_addParameter added).trans (ih middle later)
  | case3 known type name rest isType ih =>
      rw [readParameters, if_neg isType] at returns
      obtain ⟨middle, between, added, later⟩ := returns_bind_iff.mp returns
      exact (addsNoting_addParameter added).trans (ih middle later)
  | case4 known type => exact addsNoting_addParameter returns

theorem fixed_readParameters (known : List Parameter) (captures : List Capture) :
    Fixed (readParameters known captures) := by
  induction known, captures using readParameters.induct with
  | case1 known => exact .pure
  | case2 known type name rest isName ih =>
      rw [readParameters, if_pos isName]
      exact (fixed_addParameter _ _ _).bind fun middle => ih middle
  | case3 known type name rest isType ih =>
      rw [readParameters, if_neg isType]
      exact (fixed_addParameter _ _ _).bind fun middle => ih middle
  | case4 known type => exact fixed_addParameter _ _ _

/-! ### Functions -/

/-- A function declares the name that its second capture spells. -/
theorem declaresUnder_declareFunction (type spelled : Capture) (rest : List Capture) :
    ∃ made, Settled made ∧ DeclaresUnder .functions (bindingName spelled.text) made
      (declareFunction (type :: spelled :: rest)) := by
  unfold declareFunction
  dsimp only
  generalize bindingName spelled.text = name
  obtain ⟨returnType, isReturnType⟩ : Fixed (Run.resolve type.text) := .resolve
  obtain ⟨parameters, areParameters⟩ := fixed_readParameters [] rest
  refine ⟨fun registry =>
    .function ⟨name, spelled.text, registry.currentHeader, returnType, parameters⟩, ?_, ?_⟩
  · intro one other same
    simp only [same]
  · apply DeclaresUnder.of_body
    · intro registry
      rfl
    · intro registry
      rfl
    · intro before value after named free body
      obtain ⟨_, _, resolved, body⟩ := returns_bind_iff.mp body
      obtain rfl := isReturnType _ _ _ resolved
      obtain ⟨_, rfl⟩ := returns_resolve_iff.mp resolved
      obtain ⟨_, _, parametersRead, body⟩ := returns_bind_iff.mp body
      obtain rfl := areParameters _ _ _ parametersRead
      obtain ⟨new, isNew, rfl⟩ := addsNoting_readParameters parametersRead
      rw [List.nil_append] at isNew
      subst isNew
      obtain ⟨_, _, read, left⟩ := returns_bind_iff.mp body
      obtain ⟨rfl, rfl⟩ := returns_get_iff.mp read
      rw [← Registry.referAll_append, currentHeader_referAll] at left
      exact admits_of_free _ named free (returns_emit_iff.mp left) rfl rfl
        (Declaration.references_function _) rfl rfl (by simp)

theorem acts_declareFunction : Acts action cursor (declareFunction captures) := by
  match captures with
  | [] | [_] => exact acts_pure
  | type :: spelled :: rest =>
      obtain ⟨made, settled, declares⟩ := declaresUnder_declareFunction type spelled rest
      exact .given made (fun _ => settled) declares

/-! ### Records -/

/-- A record is declared with the fields that its captures spell, under the current header. -/
theorem returns_emitRecord_iff {name spelling : String} {isUnion : Bool} {captures : List Capture} :
    (emitRecord name spelling isUnion captures).Returns before value after ↔
      (name = "" ∨ before.isDeclared .types name = true) ∧ after = before ∨
      name ≠ "" ∧ before.isDeclared .types name = false ∧ ∃ fields between,
        (readFields [] captures).Returns (before.reserve .types name) fields between ∧
        after = between.emit .types
          (.record ⟨name, spelling, before.currentHeader, isUnion, fields⟩) := by
  refine returns_declaring_iff.trans (or_congr_right (and_congr_right fun _ =>
    and_congr_right fun _ => ?_))
  rw [returns_bind_iff]
  constructor
  · rintro ⟨_, _, read, body⟩
    obtain ⟨rfl, rfl⟩ := returns_get_iff.mp read
    obtain ⟨fields, between, fieldsRead, left⟩ := returns_bind_iff.mp body
    exact ⟨fields, between, fieldsRead, returns_emit_iff.mp left⟩
  · rintro ⟨fields, between, fieldsRead, left⟩
    exact ⟨_, _, returns_get_iff.mpr ⟨rfl, rfl⟩,
      fieldsRead.bind (returns_emit_iff.mpr left)⟩

theorem declaresUnder_emitRecord (name spelling : String) (isUnion : Bool)
    (captures : List Capture) : ∃ made, Settled made ∧
      DeclaresUnder .types name made (emitRecord name spelling isUnion captures) := by
  obtain ⟨fields, areFields⟩ := fixed_readFields [] captures
  refine ⟨fun registry => .record ⟨name, spelling, registry.currentHeader, isUnion, fields⟩, ?_,
    fun _ => rfl, fun _ => rfl,
    fun _ blocked => returns_emitRecord_iff.mpr (Or.inl ⟨blocked, rfl⟩), ?_⟩
  · intro one other same
    simp only [same]
  · intro before value after returns
    rcases returns_emitRecord_iff.mp returns with blocked | ⟨named, free, given, _, read, rfl⟩
    · exact Or.inl blocked
    · obtain rfl := areFields _ _ _ read
      obtain ⟨new, isNew, rfl⟩ := addsNoting_readFields read
      rw [List.nil_append] at isNew
      subst isNew
      exact Or.inr (admits_of_free _ named free rfl rfl rfl (Declaration.references_record _) rfl rfl
        (by simp))

theorem acts_emitRecord (name spelling : String) (isUnion : Bool) :
    Acts action cursor (emitRecord name spelling isUnion captures) := by
  obtain ⟨made, settled, declares⟩ := declaresUnder_emitRecord name spelling isUnion captures
  exact .given made (fun _ => settled) declares

/-- A made-up name is remembered, and nothing else changes. -/
theorem steps_uniqueName {category : Category} {stem name : String} {key : Option (List Int)}
    (made : (name, after) = before.uniqueName category stem key) : Registry.Steps before after := by
  cases key with
  | none =>
      obtain ⟨_, rfl⟩ := Prod.mk.inj made
      exact .refl
  | some key =>
      rcases Registry.uniqueName_cases made with ⟨_, rfl⟩ | ⟨_, _, rfl⟩
      · exact .refl
      · exact .single (.made _)

theorem acts_declareRecord : Acts (some .declareRecord) cursor (declareRecord cursor captures) := by
  rw [declareRecord_eq]
  refine acts_declareSpecifier (fun tag => acts_emitRecord _ _ _) (by simp) fun name => ?_
  obtain ⟨made, _, declares⟩ := declaresUnder_emitRecord name "" cursor.focus.isUnion captures
  exact ⟨made, declares⟩

theorem acts_declareTypedefRecord : Acts action cursor (declareTypedefRecord cursor captures) := by
  unfold declareTypedefRecord
  split
  · exact acts_emitRecord _ _ _
  · exact acts_pure

/-! ### Enumerations -/

/-- Different names of constants, all there and free. -/
structure FreshConstants (registry : Registry) (names : List String) : Prop where
  named : "" ∉ names
  free : ∀ name ∈ names, registry.isDeclared .constants name = false
  distinct : names.Nodup

theorem isDeclared_reserve (registry : Registry) (category : Category) (reserved name : String) :
    (registry.reserve category reserved).isDeclared category name
      = (registry.isDeclared category name || name == reserved) := by
  rw [Bool.eq_iff_iff]
  simp [Registry.isDeclared, Registry.reserve]

theorem FreshConstants.cons {name : String} {names : List String} (named : name ≠ "")
    (free : before.isDeclared .constants name = false)
    (rest : FreshConstants (before.reserve .constants name) names) :
    FreshConstants before (name :: names) where
  named := by simp [named.symm, rest.named]
  free := by
    rw [List.forall_mem_cons]
    refine ⟨free, fun other member => ?_⟩
    have later := rest.free other member
    rw [isDeclared_reserve, Bool.or_eq_false_iff] at later
    exact later.1
  distinct := by
    refine List.nodup_cons.mpr ⟨fun member => ?_, rest.distinct⟩
    have later := rest.free name member
    rw [isDeclared_reserve, Bool.or_eq_false_iff] at later
    simp at later

/-- Members are added after those that are given, under names that were free as constants and are then
reserved. -/
def KeepsMembers (given result : List Enumerator) (before after : Registry) : Prop :=
  ∃ new : List Enumerator, result = given ++ new ∧
    FreshConstants before (new.map (·.name)) ∧ after = before.reserveAll .constants (new.map (·.name))

theorem KeepsMembers.refl (given : List Enumerator) (registry : Registry) :
    KeepsMembers given given registry registry :=
  ⟨[], by simp, ⟨by simp, by simp, by simp⟩, rfl⟩

theorem KeepsMembers.cons {given result : List Enumerator} {member : Enumerator}
    (named : member.name ≠ "") (free : before.isDeclared .constants member.name = false)
    (rest : KeepsMembers (given ++ [member]) result (before.reserve .constants member.name) after) :
    KeepsMembers given result before after := by
  obtain ⟨new, rfl, fresh, rfl⟩ := rest
  exact ⟨member :: new, by simp, fresh.cons named free, rfl⟩

/-- A name is reserved as a constant if it is there and free. -/
def KeepsName (name : String) (kept : Bool) (before after : Registry) : Prop :=
  kept = false ∧ after = before ∨
    kept = true ∧ name ≠ "" ∧ before.isDeclared .constants name = false ∧
      after = before.reserve .constants name

theorem keepsName_of_returns {α : Type} {name : String} {next : Bool → Run α} {result : α}
    (returns : (if name.isEmpty then pure false >>= next
      else declare .constants name >>= next).Returns before result after) :
    ∃ kept between, KeepsName name kept before between ∧ (next kept).Returns between result after := by
  split at returns
  · obtain ⟨kept, _, dropped, rest⟩ := returns_bind_iff.mp returns
    obtain ⟨rfl, rfl⟩ := returns_pure_iff.mp dropped
    exact ⟨false, _, Or.inl ⟨rfl, rfl⟩, rest⟩
  · rename_i nonempty
    obtain ⟨kept, between, declared, rest⟩ := returns_bind_iff.mp returns
    rcases returns_declare_iff.mp declared with ⟨isFree, rfl, rfl⟩ | ⟨_, rfl, rfl⟩
    · exact ⟨true, _, Or.inr ⟨rfl, by simpa using nonempty, isFree, rfl⟩, rest⟩
    · exact ⟨false, _, Or.inl ⟨rfl, rfl⟩, rest⟩

/-- An enumerator takes its first capture as a name, finds a value, and is kept or not; the others are read
from there on. -/
theorem returns_readMembers_cons {known : List (String × Int)} {next : Int}
    {given result : List Enumerator} {enumerator : Tree} {rest : List Tree} {captures : List Capture}
    (returns : (readMembers known next given (enumerator :: rest) captures).Returns
      before result after) :
    ∃ first value kept between known next, captures[0]? = some first ∧
      KeepsName (bindingName first.text) kept before between ∧
      (readMembers known next
        (if kept then given ++ [⟨bindingName first.text, value⟩] else given) rest
        (captures.drop (if enumerator.hasValue then 2 else 1))).Returns between result after := by
  rw [readMembers] at returns
  obtain ⟨first, isFirst, body⟩ := returns_capture_bind_iff.mp returns
  dsimp only at body
  -- However the value is found, finding it changes nothing.
  cases hasValue : enumerator.hasValue with
  | true =>
      rw [hasValue] at body
      obtain ⟨second, _, valued⟩ := returns_capture_bind_iff.mp body
      obtain ⟨value, _, explicit, keeping⟩ := returns_bind_iff.mp valued
      obtain rfl := changesNothing_explicitValue _ _ _ _ _ _ explicit
      obtain ⟨kept, between, keeps, later⟩ := keepsName_of_returns keeping
      exact ⟨first, value.text, kept, between, _, _, isFirst, keeps, later⟩
  | false =>
      rw [hasValue] at body
      obtain ⟨number, _, written, valued⟩ := returns_bind_iff.mp body
      obtain rfl := ChangesNothing.decimal _ _ _ written
      obtain ⟨value, _, counted, keeping⟩ := returns_bind_iff.mp valued
      obtain rfl := ChangesNothing.pure _ _ _ counted
      obtain ⟨kept, between, keeps, later⟩ := keepsName_of_returns keeping
      exact ⟨first, value.text, kept, between, _, _, isFirst, keeps, later⟩

theorem keepsMembers_readMembers {known : List (String × Int)} {next : Int}
    {given result : List Enumerator} {trees : List Tree} {captures : List Capture}
    (returns : (readMembers known next given trees captures).Returns before result after) :
    KeepsMembers given result before after := by
  induction trees generalizing known next given captures before with
  | nil =>
      rw [readMembers] at returns
      obtain ⟨rfl, rfl⟩ := returns_pure_iff.mp returns
      exact .refl _ _
  | cons enumerator rest ih =>
      obtain ⟨first, value, kept, between, _, _, _, keeps, later⟩ := returns_readMembers_cons returns
      rcases keeps with ⟨rfl, rfl⟩ | ⟨rfl, named, free, rfl⟩
      · exact ih later
      · refine .cons ?_ ?_ (ih later)
        · exact named
        · exact free

/-- An enumeration is declared with the members that its captures spell, under the current header. -/
theorem returns_emitEnumeration_iff {name : String} {specifier : Tree} {captures : List Capture} :
    (emitEnumeration name specifier captures).Returns before value after ↔
      (name = "" ∨ before.isDeclared .enumerations name = true) ∧ after = before ∨
      name ≠ "" ∧ before.isDeclared .enumerations name = false ∧ ∃ members between,
        (readMembers [] 0 [] (enumerators specifier) captures).Returns
          (before.reserve .enumerations name) members between ∧
        after = between.emit .enumerations (.enumeration ⟨name, before.currentHeader, members⟩) := by
  refine returns_declaring_iff.trans (or_congr_right (and_congr_right fun _ =>
    and_congr_right fun _ => ?_))
  rw [returns_bind_iff]
  constructor
  · rintro ⟨_, _, read, body⟩
    obtain ⟨rfl, rfl⟩ := returns_get_iff.mp read
    obtain ⟨members, between, membersRead, left⟩ := returns_bind_iff.mp body
    exact ⟨members, between, membersRead, returns_emit_iff.mp left⟩
  · rintro ⟨members, between, membersRead, left⟩
    exact ⟨_, _, returns_get_iff.mpr ⟨rfl, rfl⟩,
      membersRead.bind (returns_emit_iff.mpr left)⟩

/-- The members that enumerators and captures spell, if they do, after what a registry holds. -/
def membersIn (specifier : Tree) (captures : List Capture) (registry : Registry) : List Enumerator :=
  ((ExceptT.run (readMembers [] 0 [] (enumerators specifier) captures)).run registry).1.toOption.getD []

theorem membersIn_eq {specifier : Tree} {captures : List Capture} {members : List Enumerator}
    (returns : (readMembers [] 0 [] (enumerators specifier) captures).Returns before members after) :
    membersIn specifier captures before = members := by
  rw [membersIn, returns]
  rfl

theorem mem_membersIn {specifier : Tree} {captures : List Capture} {member : Enumerator}
    (inside : member ∈ membersIn specifier captures before) : ∃ members after,
      (readMembers [] 0 [] (enumerators specifier) captures).Returns before members after ∧
        member ∈ members := by
  rw [membersIn] at inside
  cases result : (ExceptT.run (readMembers [] 0 [] (enumerators specifier) captures)).run before with
  | mk outcome left =>
      rw [result] at inside
      cases outcome with
      | error fault => cases inside
      | ok members => exact ⟨members, left, result, inside⟩

theorem declaresUnder_emitEnumeration (name : String) (specifier : Tree) (captures : List Capture) :
    DeclaresUnder .enumerations name (fun registry => .enumeration ⟨name, registry.currentHeader,
        membersIn specifier captures (registry.reserve .enumerations name)⟩)
      (emitEnumeration name specifier captures) where
  isCategory _ := rfl
  isName _ := rfl
  blocked _ blocked := returns_emitEnumeration_iff.mpr (Or.inl ⟨blocked, rfl⟩)
  takesIn {before value after} returns := by
    rcases returns_emitEnumeration_iff.mp returns with
      blocked | ⟨named, free, members, _, membersRead, left⟩
    · exact Or.inl blocked
    · obtain ⟨new, isNew, fresh, rfl⟩ := keepsMembers_readMembers membersRead
      rw [List.nil_append] at isNew
      subst isNew
      have admits : before.Admits (.enumeration ⟨name, before.currentHeader, members⟩) := {
        named
        free
        membersNamed := fresh.named
        membersFree := fresh.free
        membersDistinct := fresh.distinct
        here := rfl
        opaqueTarget := by simp }
      rw [membersIn_eq membersRead]
      exact Or.inr ⟨admits, left⟩

theorem acts_emitEnumeration (name : String) (specifier : Tree) :
    Acts action cursor (emitEnumeration name specifier captures) :=
  .given _ (absurd rfl) (declaresUnder_emitEnumeration name specifier captures)

theorem acts_declareEnumeration :
    Acts (some .declareEnumeration) cursor (declareEnumeration cursor captures) := by
  rw [declareEnumeration_eq]
  exact acts_declareSpecifier (fun tag => acts_emitEnumeration _ _) (by simp) fun name =>
    ⟨_, declaresUnder_emitEnumeration name cursor.focus captures⟩

theorem acts_declareTypedefEnumeration :
    Acts action cursor (declareTypedefEnumeration cursor captures) := by
  unfold declareTypedefEnumeration
  split
  · exact acts_emitEnumeration _ _
  · exact acts_pure

/-! ### All actions -/

/-- What an action comes to for the node that it is carried out for. -/
theorem Action.acts (action : Action) (cursor : Cursor) (captures : List Capture) :
    Acts (some action) cursor (action.run (some cursor) captures) := by
  cases action with
  | defineConstant => exact acts_defineConstant
  | declareAlias => exact acts_declareAlias
  | declareRecord => exact acts_declareRecord
  | declareTypedefRecord => exact acts_declareTypedefRecord
  | declareEnumeration => exact acts_declareEnumeration
  | declareTypedefEnumeration => exact acts_declareTypedefEnumeration
  | declareFunction => exact acts_declareFunction

end

/-- What an action does when it returns takes the registry through steps. -/
theorem Acts.steps {action : Option Action} {cursor : Cursor} {step : Run Unit}
    (acts : Acts action cursor step) (returns : step.Returns before value after) :
    Registry.Steps before after := by
  cases acts with
  | idle returns_iff => rw [returns_iff.mp returns]
  | fails never => exact absurd returns never
  | given _ _ declares => exact (declares.takesInOne returns).steps
  | madeUp _ _ _ returns_iff declares =>
      obtain ⟨name, between, made, emitted⟩ := returns_iff.mp returns
      obtain ⟨_, declaresName⟩ := declares name
      exact (steps_uniqueName made).trans (declaresName.takesInOne emitted).steps

end HeaderBindings
