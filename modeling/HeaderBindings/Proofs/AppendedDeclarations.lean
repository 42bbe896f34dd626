/-
Module: HeaderBindings.Proofs.AppendedDeclarations
Purpose: What an action leaves of what is declared: one that fails emits nothing, one that returns adds at
  most one declaration, and one whose name is declared already changes nothing at all.
Main exports: Registry.SameDeclarations, Run.EmitsNothing, Run.FailsQuietly, Naming, Action.naming?,
  Run.DeclaresAs, Action.declaresAs, Action.appends_at_most_one
-/
import HeaderBindings.Proofs.Regeneration
import HeaderBindings.Proofs.RunFaults

namespace HeaderBindings

open Run Spelling

variable {before between after : Registry}

/-! ### Steps that emit nothing -/

/-- Two registries hold the same declarations under the same headers. Which names they reserve, refer to
and remember may differ. -/
structure Registry.SameDeclarations (before after : Registry) : Prop where
  currentHeader : after.currentHeader = before.currentHeader
  headers : after.headers = before.headers
  emitted : after.emitted = before.emitted

namespace Registry.SameDeclarations

theorem refl (registry : Registry) : registry.SameDeclarations registry := ⟨rfl, rfl, rfl⟩

theorem trans (first : before.SameDeclarations between) (second : between.SameDeclarations after) :
    before.SameDeclarations after where
  currentHeader := second.currentHeader.trans first.currentHeader
  headers := second.headers.trans first.headers
  emitted := second.emitted.trans first.emitted

theorem declare (registry : Registry) (category : Category) (name : String) :
    registry.SameDeclarations (registry.declare category name).2 := by
  unfold Registry.declare
  split
  · exact .refl registry
  · exact ⟨rfl, rfl, rfl⟩

theorem refer (registry : Registry) (name : String) :
    registry.SameDeclarations (registry.refer name) := by
  unfold Registry.refer
  split
  · exact .refl registry
  · exact ⟨rfl, rfl, rfl⟩

theorem uniqueName (registry : Registry) (category : Category) (stem : String)
    (key : Option (List Int)) :
    registry.SameDeclarations (registry.uniqueName category stem key).2 := by
  cases made : registry.uniqueName category stem key with
  | mk name noted =>
      rw [uniqueName_frame made.symm]
      exact ⟨rfl, rfl, rfl⟩

end Registry.SameDeclarations

namespace Run

variable {α β : Type}

/-- A step emits nothing, whether it returns or fails. -/
def EmitsNothing (step : Run α) : Prop :=
  ∀ registry : Registry, registry.SameDeclarations ((ExceptT.run step).run registry).2

namespace EmitsNothing

theorem pure {value : α} : EmitsNothing (Pure.pure value : Run α) := fun registry => .refl registry

theorem throw {fault : RunFault} : EmitsNothing (MonadExcept.throw fault : Run α) :=
  fun registry => .refl registry

theorem get : EmitsNothing (MonadState.get : Run Registry) := fun registry => .refl registry

theorem modifyGet {change : Registry → α × Registry}
    (same : ∀ registry : Registry, registry.SameDeclarations (change registry).2) :
    EmitsNothing (MonadStateOf.modifyGet change : Run α) := same

theorem bind {first : Run α} {next : α → Run β} (head : EmitsNothing first)
    (rest : ∀ value, EmitsNothing (next value)) : EmitsNothing (first >>= next) := by
  intro registry
  have here := head registry
  rw [run_bind]
  rcases result : (ExceptT.run first).run registry with ⟨fault | value, between⟩
  · rwa [result] at here
  · rw [result] at here
    exact here.trans (rest value between)

theorem ofExcept {ε : Type} {fault : ε → RunFault} {result : Except ε α} :
    EmitsNothing (Run.ofExcept fault result) := by
  cases result with
  | ok value => exact pure
  | error error => exact throw

theorem capture {captures : List Capture} {index : Nat} :
    EmitsNothing (Run.capture captures index) := by
  unfold Run.capture
  split
  · exact pure
  · exact throw

theorem decimal {n : Int} : EmitsNothing (Run.decimal n) := by
  unfold Run.decimal
  split
  · exact pure
  · exact throw

theorem declare {category : Category} {name : String} : EmitsNothing (Run.declare category name) :=
  modifyGet fun registry => .declare registry category name

theorem refer {name : String} : EmitsNothing (Run.refer name) := by
  unfold Run.refer
  split
  · exact pure
  · exact fun registry => .refer registry name

theorem resolve {spelled : String} : EmitsNothing (Run.resolve spelled) := by
  refine ofExcept.bind fun name => ?_
  cases name with
  | none => exact ofExcept
  | some name => exact refer.bind fun _ => ofExcept

theorem target {spelled : String} : EmitsNothing (Run.target spelled) := resolve.bind fun _ => pure

end EmitsNothing

end Run

/-! ### Fields, parameters and members -/

theorem emitsNothing_readFields (known : List Field) (captures : List Capture) :
    EmitsNothing (readFields known captures) := by
  induction known, captures using readFields.induct with
  | case1 known type next rest padding named =>
      rw [readFields]
      refine EmitsNothing.target.bind fun target => ?_
      split
      · exact padding target
      · exact named target
  | case2 known captures short =>
      rw [readFields]
      · exact .pure
      · exact short

theorem emitsNothing_addParameter (known : List Parameter) (type name : String) :
    EmitsNothing (readParameters.addParameter known type name) := by
  unfold readParameters.addParameter
  split
  · exact .pure
  · exact EmitsNothing.target.bind fun _ => .pure

theorem emitsNothing_readParameters (known : List Parameter) (captures : List Capture) :
    EmitsNothing (readParameters known captures) := by
  induction known, captures using readParameters.induct with
  | case1 known => exact .pure
  | case2 known type name rest isName ih =>
      rw [readParameters, if_pos isName]
      exact (emitsNothing_addParameter _ _ _).bind fun middle => ih middle
  | case3 known type name rest isType ih =>
      rw [readParameters, if_neg isType]
      exact (emitsNothing_addParameter _ _ _).bind fun middle => ih middle
  | case4 known type => exact emitsNothing_addParameter _ _ _

theorem emitsNothing_namedValue (known : List (String × Int)) (next : Int) (spelled : String) :
    EmitsNothing (namedValue known next spelled) := by
  have number : ∀ name, EmitsNothing (constantNumber name) := by
    intro name
    refine EmitsNothing.get.bind fun registry => ?_
    split
    · exact .ofExcept
    · exact .pure
  refine (number _).bind fun macroNumber => ?_
  split
  · exact .pure
  · refine EmitsNothing.get.bind fun registry => ?_
    split
    · exact .pure
    · exact EmitsNothing.decimal.bind fun _ => .pure

theorem emitsNothing_explicitValue (known : List (String × Int)) (next : Int) (capture : Capture) :
    EmitsNothing (explicitValue known next capture) := by
  refine EmitsNothing.ofExcept.bind fun number => ?_
  split
  · exact emitsNothing_namedValue known next capture.text
  · split
    · exact .pure
    · split
      · exact EmitsNothing.decimal.bind fun _ => .pure
      · exact .pure

/-- Members reserve their names, and emit nothing themselves. -/
theorem emitsNothing_readMembers (known : List (String × Int)) (next : Int) (given : List Enumerator)
    (trees : List Tree) (captures : List Capture) :
    EmitsNothing (readMembers known next given trees captures) := by
  -- However the value is found, the name is reserved next, and then come the others.
  have keeping : ∀ (name : String) (others : Bool → Run (List Enumerator)),
      (∀ kept, EmitsNothing (others kept)) →
      EmitsNothing (if name.isEmpty then pure false >>= others
        else Run.declare .constants name >>= others) := by
    intro name others rest
    split
    · exact EmitsNothing.pure.bind rest
    · exact EmitsNothing.declare.bind rest
  induction trees generalizing known next given captures with
  | nil => exact .pure
  | cons enumerator rest ih =>
      rw [readMembers]
      refine EmitsNothing.capture.bind fun first => ?_
      dsimp only
      cases enumerator.hasValue with
      | true =>
          refine EmitsNothing.capture.bind fun second => ?_
          exact (emitsNothing_explicitValue _ _ _).bind fun value => keeping _ _ fun _ => ih _ _ _ _
      | false =>
          refine EmitsNothing.decimal.bind fun text => ?_
          exact EmitsNothing.pure.bind fun value => keeping _ _ fun _ => ih _ _ _ _

/-! ### Actions that fail

A declaration is emitted last, and emitting does not fail. -/

/-- If a step fails, it has emitted nothing. -/
def Run.FailsQuietly {α : Type} (step : Run α) : Prop :=
  ∀ before fault after, step.Faults before fault after → before.SameDeclarations after

namespace Run.FailsQuietly

variable {α β : Type}

theorem of_emitsNothing {step : Run α} (emitsNothing : EmitsNothing step) : FailsQuietly step := by
  intro before fault after faults
  have same := emitsNothing before
  rw [faults] at same
  exact same

theorem bind {first : Run α} {next : α → Run β} (head : EmitsNothing first)
    (rest : ∀ value, FailsQuietly (next value)) : FailsQuietly (first >>= next) := by
  intro before fault after faults
  rcases faults_bind_iff.mp faults with here | ⟨value, between, returns, later⟩
  · exact of_emitsNothing head _ _ _ here
  · have same := head before
    rw [returns] at same
    exact same.trans (rest value _ _ _ later)

theorem emit {category : Category} {declaration : Declaration} :
    FailsQuietly (Run.emit category declaration) := by
  intro before fault after faults
  cases faults

theorem declaring {category : Category} {name : String} {body : Run Unit} (quiet : FailsQuietly body) :
    FailsQuietly (if name.isEmpty then Pure.pure ()
      else declare category name >>= fun free => if free then body else Pure.pure ()) := by
  split
  · exact of_emitsNothing .pure
  · refine bind .declare fun free => ?_
    split
    · exact quiet
    · exact of_emitsNothing .pure

theorem specifier {captures : List Capture} {category : Category} {stem : String} {cursor : Cursor}
    {tagged : Capture → Run Unit} {untagged : String → Run Unit}
    (quietTagged : ∀ tag, FailsQuietly (tagged tag)) (quiet : ∀ name, FailsQuietly (untagged name)) :
    FailsQuietly (declareSpecifier cursor category stem captures tagged untagged) := by
  unfold declareSpecifier
  split
  · exact bind .capture quietTagged
  · split
    · exact of_emitsNothing .pure
    · exact bind (.modifyGet fun registry => .uniqueName registry category stem _) quiet

theorem definition {found : Option Tree} {last : Option Capture} {body : Tree → Capture → Run Unit}
    (quiet : ∀ specifier name, FailsQuietly (body specifier name)) :
    FailsQuietly (match found, last with
      | some specifier, some name => body specifier name
      | _, _ => Pure.pure ()) := by
  split
  · exact quiet _ _
  · exact of_emitsNothing .pure

theorem withNode {step : Cursor → List Capture → Run Unit} {node : Option Cursor}
    {captures : List Capture} (quiet : ∀ cursor, FailsQuietly (step cursor captures)) :
    FailsQuietly (Action.withNode step node captures) := by
  cases node with
  | none => exact of_emitsNothing .throw
  | some cursor => exact quiet cursor

end Run.FailsQuietly

theorem failsQuietly_emitRecord (name spelling : String) (isUnion : Bool) (captures : List Capture) :
    FailsQuietly (emitRecord name spelling isUnion captures) :=
  .declaring <| .bind .get fun _ => .bind (emitsNothing_readFields _ _) fun _ => .emit

theorem failsQuietly_emitEnumeration (name : String) (specifier : Tree) (captures : List Capture) :
    FailsQuietly (emitEnumeration name specifier captures) :=
  .declaring <| .bind .get fun _ => .bind (emitsNothing_readMembers _ _ _ _ _) fun _ => .emit

theorem failsQuietly_defineConstant (captures : List Capture) : FailsQuietly (defineConstant captures) := by
  match captures with
  | [] | [_] => exact .of_emitsNothing .pure
  | first :: second :: _ =>
      rw [defineConstant]
      cases literal? second.text with
      | none => exact .of_emitsNothing .pure
      | some literal => exact .declaring <| .bind .get fun _ => .emit

theorem failsQuietly_declareAlias (captures : List Capture) : FailsQuietly (declareAlias captures) := by
  match captures with
  | [] | [_] => exact .of_emitsNothing .pure
  | first :: second :: _ =>
      rw [declareAlias]
      refine FailsQuietly.declaring ?_
      generalize splitPointer first.text = parts
      dsimp only
      split
      · exact .bind .get fun _ => .emit
      · exact .bind .target fun _ => .bind .get fun _ => .emit

theorem failsQuietly_declareFunction (captures : List Capture) :
    FailsQuietly (declareFunction captures) := by
  match captures with
  | [] | [_] => exact .of_emitsNothing .pure
  | type :: spelled :: parameters =>
      rw [declareFunction]
      exact .declaring <| .bind .resolve fun _ =>
        .bind (emitsNothing_readParameters _ _) fun _ => .bind .get fun _ => .emit

/-- What fails in an action, fails before anything is emitted. -/
theorem Action.failsQuietly (action : Action) (node : Option Cursor) (captures : List Capture) :
    FailsQuietly (action.run node captures) := by
  cases action with
  | defineConstant => exact failsQuietly_defineConstant captures
  | declareAlias => exact failsQuietly_declareAlias captures
  | declareFunction => exact failsQuietly_declareFunction captures
  | declareRecord =>
      exact .withNode fun cursor => .specifier (fun _ => failsQuietly_emitRecord _ _ _ _)
        fun _ => failsQuietly_emitRecord _ _ _ _
  | declareTypedefRecord =>
      exact .withNode fun cursor => .definition fun _ _ => failsQuietly_emitRecord _ _ _ _
  | declareEnumeration =>
      exact .withNode fun cursor => .specifier (fun _ => failsQuietly_emitEnumeration _ _ _)
        fun _ => failsQuietly_emitEnumeration _ _ _
  | declareTypedefEnumeration =>
      exact .withNode fun cursor => .definition fun _ _ => failsQuietly_emitEnumeration _ _ _

/-! ### The name that an action declares -/

/-- The category and the name that a node is declared under: the captures give the name, or it is made up
with a stem for a key. -/
inductive Naming where
  | given (category : Category) (name : String)
  | madeUp (category : Category) (stem : String) (key : List Int)
deriving Repr, DecidableEq

namespace Naming

def category : Naming → Category
  | given category _ => category
  | madeUp category _ _ => category

/-- The name as it is from a registry on. -/
def name (registry : Registry) : Naming → String
  | given _ name => name
  | madeUp category stem key => (registry.uniqueName category stem (some key)).1

/-- A name that is not there or is declared already, so that nothing is declared under it. -/
def Blocked (registry : Registry) (naming : Naming) : Prop :=
  naming.name registry = "" ∨ registry.isDeclared naming.category (naming.name registry) = true

end Naming

/-- A specifier is named by its tag, the first capture; without tag a name is made up for it, unless it is
directly under a type definition. -/
def Cursor.specifierNaming? (cursor : Cursor) (category : Category) (stem : String)
    (captures : List Capture) : Option Naming :=
  if cursor.focus.hasName then captures.head?.map fun tag => .given category (bindingName tag.text)
  else if cursor.underTypedef then none
  else some (.madeUp category stem cursor.spanKey)

/-- A type definition around a specifier names it by its last capture. -/
def Cursor.definitionNaming? (cursor : Cursor) (category : Category) (kinds : List String)
    (captures : List Capture) : Option Naming :=
  if (cursor.focus.namedOfKind? kinds).isSome then
    captures.getLast?.map fun last => .given category (bindingName last.text)
  else none

/-- The name that an action declares, if there is one for its node and captures. -/
def Action.naming? (action : Action) (node : Option Cursor) (captures : List Capture) : Option Naming :=
  match action, node, captures with
  | .defineConstant, _, first :: second :: _ =>
      (literal? second.text).map fun _ => .given .constants (bindingName first.text)
  | .declareAlias, _, _ :: second :: _ => some (.given .types (bindingName second.text))
  | .declareFunction, _, _ :: second :: _ => some (.given .functions (bindingName second.text))
  | .declareRecord, some cursor, captures =>
      cursor.specifierNaming? .types (if cursor.focus.isUnion then "AnonUnion" else "AnonStruct") captures
  | .declareEnumeration, some cursor, captures =>
      cursor.specifierNaming? .enumerations "AnonEnum" captures
  | .declareTypedefRecord, some cursor, captures =>
      cursor.definitionNaming? .types ["struct_specifier", "union_specifier"] captures
  | .declareTypedefEnumeration, some cursor, captures =>
      cursor.definitionNaming? .enumerations ["enum_specifier"] captures
  | _, _, _ => none

/-- A step declares as a naming says: without one it changes nothing, with a given name it declares under
the name, and with one to be made up it makes it up first. -/
inductive Run.DeclaresAs : Option Naming → Run Unit → Prop where
  | nothing {step : Run Unit} (changesNothing : ChangesNothing step) : DeclaresAs none step
  | given {category : Category} {name : String} {step : Run Unit} (made : Registry → Declaration)
      (declares : DeclaresUnder category name made step) :
      DeclaresAs (some (.given category name)) step
  | madeUp {category : Category} {stem : String} {key : List Int} {body : String → Run Unit}
      (declares : ∀ name, ∃ made, DeclaresUnder category name made (body name)) :
      DeclaresAs (some (.madeUp category stem key)) ((modifyGet fun registry : Registry =>
        registry.uniqueName category stem (some key)) >>= body)

theorem changesNothing_throw {fault : RunFault} : ChangesNothing (throw fault : Run Unit) :=
  fun _ _ _ returns => absurd returns not_returns_throw

/-- What a specifier is declared as, if each name that it may have is declared by the body. -/
theorem declaresAs_specifier (cursor : Cursor) (category : Category) (stem : String)
    (captures : List Capture) {tagged : Capture → Run Unit} {untagged : String → Run Unit}
    (declaresTagged : ∀ tag, ∃ made, DeclaresUnder category (bindingName tag.text) made (tagged tag))
    (declaresUntagged : ∀ name, ∃ made, DeclaresUnder category name made (untagged name)) :
    DeclaresAs (cursor.specifierNaming? category stem captures)
      (declareSpecifier cursor category stem captures tagged untagged) := by
  unfold Cursor.specifierNaming? declareSpecifier
  split
  · cases captures with
    | nil =>
        refine .nothing fun _ _ _ returns => ?_
        obtain ⟨_, captured, _⟩ := returns_capture_bind_iff.mp returns
        cases captured
    | cons tag rest =>
        obtain ⟨made, declares⟩ := declaresTagged tag
        rw [capture_bind_eq rfl]
        exact .given made declares
  · split
    · exact .nothing .pure
    · exact .madeUp declaresUntagged

/-- What a type definition around a specifier is declared as, if the body declares the name it gives. -/
theorem declaresAs_definition (cursor : Cursor) (category : Category) (kinds : List String)
    (captures : List Capture) {body : Tree → Capture → Run Unit}
    (declares : ∀ specifier last, ∃ made,
      DeclaresUnder category (bindingName last.text) made (body specifier last)) :
    DeclaresAs (cursor.definitionNaming? category kinds captures)
      (match cursor.focus.namedOfKind? kinds, captures.getLast? with
        | some specifier, some last => body specifier last
        | _, _ => pure ()) := by
  unfold Cursor.definitionNaming?
  cases cursor.focus.namedOfKind? kinds with
  | none => exact .nothing .pure
  | some specifier =>
      cases captures.getLast? with
      | none => exact .nothing .pure
      | some last =>
          obtain ⟨made, declared⟩ := declares specifier last
          exact .given made declared

/-- The step of an action declares as the naming of the action says. -/
theorem Action.declaresAs (action : Action) (node : Option Cursor) (captures : List Capture) :
    DeclaresAs (action.naming? node captures) (action.run node captures) := by
  have record : ∀ name spelling isUnion captures, ∃ made,
      DeclaresUnder .types name made (emitRecord name spelling isUnion captures) := by
    intro name spelling isUnion captures
    obtain ⟨made, _, declares⟩ := declaresUnder_emitRecord name spelling isUnion captures
    exact ⟨made, declares⟩
  have enumeration : ∀ name specifier captures, ∃ made,
      DeclaresUnder .enumerations name made (emitEnumeration name specifier captures) :=
    fun _ _ _ => ⟨_, declaresUnder_emitEnumeration _ _ _⟩
  cases action with
  | defineConstant =>
      match captures with
      | [] | [_] => exact .nothing .pure
      | first :: second :: rest =>
          rw [naming?, Action.run]
          cases isLiteral : literal? second.text with
          | none =>
              rw [defineConstant_eq_pure first second rest isLiteral]
              exact .nothing .pure
          | some literal =>
              obtain ⟨made, _, _, declares⟩ := declaresUnder_defineConstant first second rest isLiteral
              exact .given made declares
  | declareAlias =>
      match captures with
      | [] | [_] => exact .nothing .pure
      | first :: second :: rest =>
          obtain ⟨made, _, _, declares⟩ := declaresUnder_declareAlias first second rest
          exact .given made declares
  | declareFunction =>
      match captures with
      | [] | [_] => exact .nothing .pure
      | type :: spelled :: parameters =>
          obtain ⟨made, _, declares⟩ := declaresUnder_declareFunction type spelled parameters
          exact .given made declares
  | declareRecord =>
      cases node with
      | none => exact .nothing changesNothing_throw
      | some cursor =>
          exact declaresAs_specifier cursor .types _ captures (fun _ => record _ _ _ _)
            fun _ => record _ _ _ _
  | declareTypedefRecord =>
      cases node with
      | none => exact .nothing changesNothing_throw
      | some cursor =>
          exact declaresAs_definition cursor .types _ captures fun _ _ => record _ _ _ _
  | declareEnumeration =>
      cases node with
      | none => exact .nothing changesNothing_throw
      | some cursor =>
          exact declaresAs_specifier cursor .enumerations _ captures (fun _ => enumeration _ _ _)
            fun _ => enumeration _ _ _
  | declareTypedefEnumeration =>
      cases node with
      | none => exact .nothing changesNothing_throw
      | some cursor =>
          exact declaresAs_definition cursor .enumerations _ captures fun _ _ => enumeration _ _ _

/-! ### What is declared -/

/-- One declaration more stands at the end of the category of a name, under this name, which is declared
from then on, and under the current header. The other categories and the headers are as they were. -/
def Registry.Appends (before after : Registry) (naming : Naming) : Prop :=
  ∃ declaration : Declaration, declaration.category = naming.category ∧
    declaration.name = naming.name before ∧ declaration.header = before.currentHeader ∧
    after.emitted = before.emitted.modify naming.category (· ++ [declaration]) ∧
    after.isDeclared naming.category (naming.name before) = true ∧
    after.headers = before.headers ∧ after.currentHeader = before.currentHeader

theorem Run.DeclaresUnder.appends {category : Category} {name : String}
    {made : Registry → Declaration} {step : Run Unit} (declares : DeclaresUnder category name made step)
    {value : Unit} (returns : step.Returns before value after) :
    (name = "" ∨ before.isDeclared category name = true) ∧ after = before ∨
      ¬ (name = "" ∨ before.isDeclared category name = true) ∧
        before.Appends after (.given category name) := by
  rcases declares.takesIn returns with blocked | ⟨admits, rfl⟩
  · exact Or.inl blocked
  · refine Or.inr ⟨?_, made before, declares.isCategory before, declares.isName before, admits.here, ?_⟩
    · have named := admits.named
      have free := admits.free
      rw [declares.isName] at named
      rw [declares.isCategory, declares.isName] at free
      simp [named, free]
    · have declared := before.isDeclared_takeIn_self (made before)
      rw [declares.isCategory, declares.isName] at declared
      refine ⟨?_, declared, ?_⟩
      · rw [Registry.emitted_takeIn, declares.isCategory]
        rfl
      · rw [Registry.takeIn_eq]
        exact ⟨rfl, rfl⟩

namespace Run.DeclaresAs

variable {naming? : Option Naming} {naming : Naming} {step : Run Unit} {value : Unit}

/-- Without a name, or with one that is declared already, a step returns and changes nothing. -/
theorem returns_of_blocked (declares : DeclaresAs (some naming) step) (blocked : naming.Blocked before) :
    step.Returns before () before := by
  cases declares with
  | given made declares => exact declares.blocked before blocked
  | @madeUp category stem key body declares =>
      cases isMade : before.uniqueName category stem (some key) with
      | mk name between =>
          rw [Naming.Blocked, Naming.name, isMade] at blocked
          obtain rfl := Registry.eq_of_uniqueName_blocked isMade.symm blocked
          obtain ⟨made, declares⟩ := declares name
          exact (returns_modifyGet_iff.mpr isMade.symm).bind (declares.blocked between blocked)

/-- A step that returns adds one declaration under a name that is there and free, and else changes
nothing. -/
theorem appends (declares : DeclaresAs naming? step) (returns : step.Returns before value after) :
    (∀ naming, naming? = some naming → naming.Blocked before) ∧ after = before ∨
      ∃ naming, naming? = some naming ∧ ¬ naming.Blocked before ∧ before.Appends after naming := by
  cases declares with
  | nothing changesNothing =>
      exact Or.inl ⟨fun _ => nofun, changesNothing _ _ _ returns⟩
  | @given category name _ made declares =>
      rcases declares.appends returns with ⟨blocked, same⟩ | appended
      · refine Or.inl ⟨?_, same⟩
        rintro _ ⟨rfl⟩
        exact blocked
      · exact Or.inr ⟨_, rfl, appended⟩
  | @madeUp category stem key body declares =>
      obtain ⟨name, between, isMade, declared⟩ := returns_bind_iff.mp returns
      rw [returns_modifyGet_iff] at isMade
      obtain ⟨made, declaresName⟩ := declares name
      have isName : (Naming.madeUp category stem key).name before = name := by
        rw [Naming.name, ← isMade]
      -- Making up the name leaves what is declared as it was.
      have frame := Registry.uniqueName_frame isMade
      have sameNames : between.isDeclared category name = before.isDeclared category name := by
        rw [frame]
        rfl
      rcases declaresName.appends declared with ⟨blocked, rfl⟩ | ⟨free, declaration, appended⟩
      · rw [sameNames] at blocked
        refine Or.inl ⟨?_, Registry.eq_of_uniqueName_blocked isMade blocked⟩
        rintro _ ⟨rfl⟩
        rwa [Naming.Blocked, isName]
      · rw [sameNames] at free
        refine Or.inr ⟨_, rfl, ?_, declaration, ?_⟩
        · rwa [Naming.Blocked, isName]
        · rw [frame] at appended
          rw [isName]
          exact appended

end Run.DeclaresAs

/-- Every action only adds, at most once and last, whatever the registry, the node and the captures are. If
it fails, the declarations and the headers are as they were. If it returns, it has added one declaration
under the current header at the end of one category, namely that of the action's name for the node, under
this name; or it has no name that is there and free, and has changed nothing. And if the category has the
name already, it does return. -/
theorem Action.appends_at_most_one (action : Action) (node : Option Cursor) (captures : List Capture)
    (before after : Registry) :
    (∀ fault, (action.run node captures).Faults before fault after → before.SameDeclarations after) ∧
    (∀ value, (action.run node captures).Returns before value after →
      (∀ naming, action.naming? node captures = some naming → naming.Blocked before) ∧
        after = before ∨
        ∃ naming, action.naming? node captures = some naming ∧ ¬ naming.Blocked before ∧
          before.Appends after naming) ∧
    (∀ naming, action.naming? node captures = some naming → naming.Blocked before →
      (action.run node captures).Returns before () before) := by
  have declares := action.declaresAs node captures
  refine ⟨fun fault faults => action.failsQuietly node captures _ _ _ faults,
    fun value returns => declares.appends returns, fun naming isNaming blocked => ?_⟩
  rw [isNaming] at declares
  exact declares.returns_of_blocked blocked

/-- A struct whose second field fails: its name stays reserved, and nothing is emitted. -/
example : (Action.declareRecord.run
      (some (Cursor.root (.node ⟨"struct_specifier", 0, 40, none⟩
        [.node ⟨"type_identifier", 7, 8, some "name"⟩ []])))
      [⟨"type_identifier", "S"⟩, ⟨"type_identifier", "T"⟩, ⟨"field_identifier", "a"⟩,
        ⟨"sized_type_specifier", "unsigned double"⟩, ⟨"field_identifier", "b"⟩]).Faults
    .empty (.unknownSize ⟨"unsigned double"⟩) { Registry.empty with
      declared := ⟨[], ["S"], [], []⟩
      referenced := ["T"] } := by
  decide +kernel

end HeaderBindings
