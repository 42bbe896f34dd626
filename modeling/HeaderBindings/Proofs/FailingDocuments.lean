/-
Module: HeaderBindings.Proofs.FailingDocuments
Purpose: From which documents generating fails: those in which a claimed node has an unsigned floating type,
  or an enumeration a bad escape or a number that is too long.
Main exports: ReadsFrom, Counted, Spoiled, Rules.failsOnly_run, Document.MacroValue,
  Document.process_returns_or_faults
-/
import HeaderBindings.Proofs.EmittedDeclarations
import HeaderBindings.Proofs.RunFaults

namespace HeaderBindings

open Run Spelling Number

/-! ### What makes an action fail -/

/-- A text that an enumeration reads a number from: that of a capture, or the value of a macro. -/
def ReadsFrom (isMacro : String → Prop) (captures : List Capture) (text : String) : Prop :=
  isMacro text ∨ ∃ capture ∈ captures, capture.text = text

/-- A number is at most some steps after zero, or after a number that is read from a text. -/
def Counted (isMacro : String → Prop) (captures : List Capture) (steps : Nat) (n : Int) : Prop :=
  ∃ start,
    (start = 0 ∨ ∃ text, ReadsFrom isMacro captures text ∧ integerValue text = .ok (some start)) ∧
    ∃ further : Nat, further ≤ steps ∧ n = start + further

/-- The actions that read types. -/
def typeActions : List Action :=
  [.declareAlias, .declareRecord, .declareTypedefRecord, .declareFunction]

/-- The actions that read numbers. -/
def numberActions : List Action := [.declareEnumeration, .declareTypedefEnumeration]

/-- What makes an action fail that is handed captures, and with which fault: an unsigned floating type, if
the action reads types; and if it reads numbers, a character constant with a bad escape, or a number with too
many digits to be written. -/
inductive Spoiled (isMacro : String → Prop) (captures : List Capture) : Action → RunFault → Prop where
  | type {action : Action} {capture : Capture} (of : action ∈ typeActions)
      (captured : capture ∈ captures) (floating : UnsignedFloating (baseWords capture.text)) :
      Spoiled isMacro captures action (.unknownSize
        ⟨if "long" ∈ baseWords capture.text then "unsigned long double" else "unsigned double"⟩)
  | escape {action : Action} {text : String} {body : List Char} {bad : BadDigits}
      (of : action ∈ numberActions) (read : ReadsFrom isMacro captures text)
      (isBody : charBody? (Text.strip text.toList) = some body) (isBad : BadEscape body bad) :
      Spoiled isMacro captures action (.badDigits bad)
  | number {action : Action} {n : Int} (of : action ∈ numberActions)
      (counted : Counted isMacro captures captures.length n)
      (long : Nat.pow 10 decimalLimit ≤ n.natAbs) :
      Spoiled isMacro captures action .numberTooLong

section

variable {isMacro : String → Prop} {captures part : List Capture} {action : Action}
variable {before after : Registry}

/-! ### Types -/

theorem failsOnly_resolve {capture : Capture} (of : action ∈ typeActions)
    (captured : capture ∈ captures) :
    FailsOnly (Spoiled isMacro captures action) (Run.resolve capture.text) before := by
  apply FailsOnly.resolve
  intro size unnamed
  obtain ⟨floating, rfl⟩ := declaredName_eq_error_iff.mp unnamed
  exact .type of captured floating

theorem failsOnly_target {capture : Capture} (of : action ∈ typeActions)
    (captured : capture ∈ captures) :
    FailsOnly (Spoiled isMacro captures action) (Run.target capture.text) before :=
  (failsOnly_resolve of captured).bind fun _ _ _ => .pure

theorem failsOnly_readFields {known : List Field} (of : action ∈ typeActions)
    (inside : part ⊆ captures) :
    FailsOnly (Spoiled isMacro captures action) (readFields known part) before := by
  induction known, part using readFields.induct generalizing before with
  | case1 known type next rest padding named =>
      rw [readFields]
      refine (failsOnly_target of (inside (by simp))).bind fun target _ _ => ?_
      have restInside : rest ⊆ captures := fun _ member => inside (by simp [member])
      split
      · exact padding target restInside
      · exact named target fun _ member => restInside (subset_fieldTail rest member)
  | case2 known captures short =>
      rw [readFields]
      · exact .pure
      · exact short

theorem failsOnly_addParameter {known : List Parameter} {type : Capture} {name : String}
    (of : action ∈ typeActions) (captured : type ∈ captures) :
    FailsOnly (Spoiled isMacro captures action)
      (readParameters.addParameter known type.text name) before := by
  unfold readParameters.addParameter
  split
  · exact .pure
  · exact (failsOnly_target of captured).bind fun _ _ _ => .pure

theorem failsOnly_readParameters {known : List Parameter} (of : action ∈ typeActions)
    (inside : part ⊆ captures) :
    FailsOnly (Spoiled isMacro captures action) (readParameters known part) before := by
  induction known, part using readParameters.induct generalizing before with
  | case1 known => exact .pure
  | case2 known type name rest isName ih =>
      rw [readParameters, if_pos isName]
      exact (failsOnly_addParameter of (inside (by simp))).bind fun middle _ _ =>
        ih middle fun _ member => inside (by simp [member])
  | case3 known type name rest isType ih =>
      rw [readParameters, if_neg isType]
      exact (failsOnly_addParameter of (inside (by simp))).bind fun middle _ _ =>
        ih middle fun _ member => inside (List.mem_cons_of_mem _ member)
  | case4 known type => exact failsOnly_addParameter of (inside (by simp))

theorem failsOnly_emitRecord {name spelling : String} {isUnion : Bool} (of : action ∈ typeActions)
    (inside : part ⊆ captures) :
    FailsOnly (Spoiled isMacro captures action) (emitRecord name spelling isUnion part) before := by
  unfold emitRecord
  apply FailsOnly.declaring
  exact FailsOnly.get.bind fun _ _ _ => (failsOnly_readFields of inside).bind fun _ _ _ => .emit

theorem failsOnly_defineConstant :
    FailsOnly (Spoiled isMacro captures .defineConstant) (defineConstant captures) before := by
  by_cases short : captures.length < 2
  · exact (eq_pure_of_short short).1 ▸ .pure
  · obtain ⟨first, second, rest, rfl⟩ := exists_of_not_short short
    unfold defineConstant
    dsimp only
    generalize bindingName first.text = name
    split
    · exact .pure
    · exact .declaring (FailsOnly.get.bind fun _ _ _ => .emit)

theorem failsOnly_declareAlias :
    FailsOnly (Spoiled isMacro captures .declareAlias) (declareAlias captures) before := by
  by_cases short : captures.length < 2
  · exact (eq_pure_of_short short).2.1 ▸ .pure
  · obtain ⟨first, second, rest, rfl⟩ := exists_of_not_short short
    have target : ∀ registry, FailsOnly (Spoiled isMacro (first :: second :: rest) .declareAlias)
        (Run.target first.text) registry := fun _ => failsOnly_target (by decide) List.mem_cons_self
    generalize Spoiled isMacro (first :: second :: rest) .declareAlias = allowed at target ⊢
    unfold declareAlias
    dsimp only
    generalize bindingName second.text = name
    apply FailsOnly.declaring
    split
    · exact FailsOnly.get.bind fun _ _ _ => .emit
    · exact (target _).bind fun _ _ _ => FailsOnly.get.bind fun _ _ _ => .emit

theorem failsOnly_declareFunction :
    FailsOnly (Spoiled isMacro captures .declareFunction) (declareFunction captures) before := by
  by_cases short : captures.length < 2
  · exact (eq_pure_of_short short).2.2 ▸ .pure
  · obtain ⟨type, spelled, rest, rfl⟩ := exists_of_not_short short
    have resolve : ∀ registry, FailsOnly (Spoiled isMacro (type :: spelled :: rest) .declareFunction)
        (Run.resolve type.text) registry := fun _ => failsOnly_resolve (by decide) List.mem_cons_self
    have parameters : ∀ registry, FailsOnly
        (Spoiled isMacro (type :: spelled :: rest) .declareFunction) (readParameters [] rest) registry :=
      fun _ => failsOnly_readParameters (by decide) fun _ member => by simp [member]
    generalize Spoiled isMacro (type :: spelled :: rest) .declareFunction = allowed
      at resolve parameters ⊢
    unfold declareFunction
    dsimp only
    generalize bindingName spelled.text = name
    apply FailsOnly.declaring
    exact (resolve _).bind fun _ _ _ => (parameters _).bind fun _ _ _ =>
      FailsOnly.get.bind fun _ _ _ => .emit

theorem failsOnly_declareTypedefRecord {node : Cursor} :
    FailsOnly (Spoiled isMacro captures .declareTypedefRecord) (declareTypedefRecord node captures)
      before := by
  unfold declareTypedefRecord
  split
  · exact failsOnly_emitRecord (by decide)
      (List.Subset.trans (List.drop_subset _ _) (List.dropLast_subset _))
  · exact .pure

/-! ### Numbers -/

theorem Counted.mono {steps more : Nat} {n : Int} (counted : Counted isMacro captures steps n)
    (le : steps ≤ more) : Counted isMacro captures more n := by
  obtain ⟨start, isStart, further, bounded, rfl⟩ := counted
  exact ⟨start, isStart, further, bounded.trans le, rfl⟩

theorem Counted.succ {steps : Nat} {n : Int} (counted : Counted isMacro captures steps n) :
    Counted isMacro captures (steps + 1) (n + 1) := by
  obtain ⟨start, isStart, further, bounded, rfl⟩ := counted
  exact ⟨start, isStart, further + 1, Nat.succ_le_succ bounded, by omega⟩

theorem counted_of_text {text : String} {n : Int} (read : ReadsFrom isMacro captures text)
    (isNumber : integerValue text = .ok (some n)) (steps : Nat) : Counted isMacro captures steps n :=
  ⟨n, Or.inr ⟨text, read, isNumber⟩, 0, Nat.zero_le steps, by simp⟩

/-- The values of a registry's macros are among some. -/
def Registry.MacrosAmong (registry : Registry) (isMacro : String → Prop) : Prop :=
  ∀ constant, .constant constant ∈ registry.emitted.constants → isMacro constant.value

theorem Registry.MacrosAmong.of_emitted (macros : before.MacrosAmong isMacro)
    (same : after.emitted = before.emitted) : after.MacrosAmong isMacro := by
  unfold MacrosAmong at macros ⊢
  rwa [same]

/-- Where the members of an enumeration have been read up to: the values of macros are known as such, and the
numbers of earlier members and the one that comes next are counted. -/
structure Counting (isMacro : String → Prop) (captures : List Capture) (registry : Registry)
    (known : List (String × Int)) (next : Int) (steps : Nat) : Prop where
  macros : registry.MacrosAmong isMacro
  known : ∀ entry ∈ known, Counted isMacro captures steps entry.2
  next : Counted isMacro captures steps next

variable {known : List (String × Int)} {next : Int} {steps : Nat}

theorem Registry.mem_of_constant? {registry : Registry} {name : String} {constant : Constant}
    (found : registry.constant? name = some constant) :
    .constant constant ∈ registry.emitted.constants := by
  obtain ⟨declaration, emitted, isConstant⟩ := List.mem_filterMap.mp (List.mem_of_find?_eq_some found)
  cases declaration with
  | constant c =>
      cases isConstant
      exact emitted
  | typeAlias | record | enumeration | function => cases isConstant

namespace Counting

theorem counted_of_constantNumber {name : String} {number : Option Int} {n : Int}
    (counting : Counting isMacro captures before known next steps)
    (returns : (constantNumber name).Returns before number after) (isNumber : number = some n) :
    Counted isMacro captures steps n := by
  obtain ⟨_, _, read, rest⟩ := returns_bind_iff.mp returns
  obtain ⟨rfl, rfl⟩ := returns_get_iff.mp read
  split at rest
  · rename_i constant found
    obtain ⟨value, _⟩ := returns_ofExcept_iff.mp rest
    rw [isNumber] at value
    exact counted_of_text (Or.inl (counting.macros constant (Registry.mem_of_constant? found))) value _
  · rw [(returns_pure_iff.mp rest).1] at isNumber
    cases isNumber

theorem counted_of_namedValue {spelled : String} {value : EnumeratorValue} {n : Int}
    (counting : Counting isMacro captures before known next steps)
    (returns : (namedValue known next spelled).Returns before value after)
    (isNumber : value.number = some n) : Counted isMacro captures steps n := by
  unfold namedValue at returns
  obtain ⟨macroNumber, between, found, rest⟩ := returns_bind_iff.mp returns
  split at rest
  · rename_i number isKnown
    rw [(returns_pure_iff.mp rest).1] at isNumber
    obtain rfl := Option.some.inj isNumber
    rcases Option.or_eq_some_iff.mp isKnown with earlier | ⟨_, ofMacro⟩
    · exact counting.known _ (mem_of_lookup earlier)
    · exact counting.counted_of_constantNumber found ofMacro
  · obtain ⟨_, _, _, rest⟩ := returns_bind_iff.mp rest
    split at rest
    · rw [(returns_pure_iff.mp rest).1] at isNumber
      cases isNumber
    · obtain ⟨_, _, _, rest⟩ := returns_bind_iff.mp rest
      rw [(returns_pure_iff.mp rest).1] at isNumber
      cases isNumber

theorem counted_of_explicitValue {capture : Capture} {value : EnumeratorValue} {n : Int}
    (counting : Counting isMacro captures before known next steps) (captured : capture ∈ captures)
    (returns : (explicitValue known next capture).Returns before value after)
    (isNumber : value.number = some n) : Counted isMacro captures steps n := by
  unfold explicitValue at returns
  obtain ⟨number, between, spelled, rest⟩ := returns_bind_iff.mp returns
  obtain ⟨read, rfl⟩ := returns_ofExcept_iff.mp spelled
  split at rest
  · exact counting.counted_of_namedValue rest isNumber
  · split at rest
    · rw [(returns_pure_iff.mp rest).1] at isNumber
      cases isNumber
    · rename_i given
      have counted : Counted isMacro captures steps given :=
        counted_of_text (Or.inr ⟨capture, captured, rfl⟩) read steps
      split at rest
      · obtain ⟨_, _, _, rest⟩ := returns_bind_iff.mp rest
        rw [(returns_pure_iff.mp rest).1] at isNumber
        exact Option.some.inj isNumber ▸ counted
      · rw [(returns_pure_iff.mp rest).1] at isNumber
        exact Option.some.inj isNumber ▸ counted

end Counting

/-- A number that is counted can be written, or makes the action fail. -/
theorem failsOnly_decimal {n : Int} (of : action ∈ numberActions) (le : steps ≤ captures.length)
    (counted : Counted isMacro captures steps n) :
    FailsOnly (Spoiled isMacro captures action) (Run.decimal n) before :=
  .decimal fun unwritten => .number of (counted.mono le) (writeInteger_eq_none_iff.mp unwritten)

/-- A text from which a number is read has one, has none, or makes the action fail. -/
theorem failsOnly_integerValue {text : String} (of : action ∈ numberActions)
    (read : ReadsFrom isMacro captures text) :
    FailsOnly (Spoiled isMacro captures action) (Run.ofExcept .badDigits (integerValue text)) before := by
  apply FailsOnly.ofExcept
  intro bad fails
  obtain ⟨body, isBody, isBad⟩ := integerValue_eq_error_iff.mp fails
  exact .escape of read isBody isBad

namespace Counting

theorem failsOnly_namedValue {spelled : String} (of : action ∈ numberActions)
    (le : steps ≤ captures.length) (counting : Counting isMacro captures before known next steps) :
    FailsOnly (Spoiled isMacro captures action) (namedValue known next spelled) before := by
  have numbered : ∀ name, FailsOnly (Spoiled isMacro captures action) (constantNumber name) before := by
    intro name
    refine FailsOnly.get.bind fun _ _ read => ?_
    obtain ⟨rfl, rfl⟩ := returns_get_iff.mp read
    split
    · rename_i constant found
      exact failsOnly_integerValue of
        (Or.inl (counting.macros constant (Registry.mem_of_constant? found)))
    · exact .pure
  unfold namedValue
  refine (numbered _).bind fun macroNumber _ _ => ?_
  split
  · exact .pure
  · refine FailsOnly.get.bind fun _ _ _ => ?_
    split
    · exact .pure
    · exact (failsOnly_decimal of le counting.next).bind fun _ _ _ => .pure

theorem failsOnly_explicitValue {capture : Capture} (of : action ∈ numberActions)
    (le : steps ≤ captures.length) (counting : Counting isMacro captures before known next steps)
    (captured : capture ∈ captures) :
    FailsOnly (Spoiled isMacro captures action) (explicitValue known next capture) before := by
  have read : ReadsFrom isMacro captures capture.text := Or.inr ⟨capture, captured, rfl⟩
  unfold explicitValue
  refine (failsOnly_integerValue of read).bind fun number _ spelled => ?_
  obtain ⟨isNumber, rfl⟩ := returns_ofExcept_iff.mp spelled
  split
  · exact counting.failsOnly_namedValue of le
  · split
    · exact .pure
    · split
      · exact (failsOnly_decimal of (Nat.zero_le _) (counted_of_text read isNumber 0)).bind
          fun _ _ _ => .pure
      · exact .pure

theorem start (macros : before.MacrosAmong isMacro) : Counting isMacro captures before [] 0 0 where
  macros
  known := by simp
  next := ⟨0, Or.inl rfl, 0, Nat.le_refl 0, rfl⟩

/-- After a member has its value, its number is known, and the next one counts from there. -/
theorem step {member : String} {number : Option Int} (registry : Registry)
    (counting : Counting isMacro captures before known next steps)
    (same : registry.emitted = before.emitted) :
    (∀ n, number = some n → Counted isMacro captures steps n) →
      Counting isMacro captures registry (match number with
        | some number => (member, number) :: known
        | none => known) (number.getD next + 1) (steps + 1) := by
  intro counted
  have earlier : ∀ entry ∈ known, Counted isMacro captures (steps + 1) entry.2 :=
    fun entry member => (counting.known entry member).mono (Nat.le_succ steps)
  cases number with
  | none => exact ⟨counting.macros.of_emitted same, earlier, counting.next.succ⟩
  | some n =>
      have own := counted n rfl
      exact ⟨counting.macros.of_emitted same,
        List.forall_mem_cons.mpr ⟨own.mono (Nat.le_succ steps), earlier⟩, own.succ⟩

end Counting

/-! ### Enumerations -/

/-- A name that is reserved or not leaves the macros as they are. -/
theorem failsOnly_keeping {α : Type} {allowed : RunFault → Prop} {name : String} {next : Bool → Run α}
    (rest : ∀ kept between, between.emitted = before.emitted → FailsOnly allowed (next kept) between) :
    FailsOnly allowed (if name.isEmpty then pure false >>= next
      else declare .constants name >>= next) before := by
  split
  · refine FailsOnly.pure.bind fun kept between dropped => rest kept between ?_
    rw [(returns_pure_iff.mp dropped).2]
  · refine FailsOnly.modifyGet.bind fun kept between declared => rest kept between ?_
    rcases returns_declare_iff.mp declared with ⟨_, _, rfl⟩ | ⟨_, _, rfl⟩ <;> rfl

/-- The members of an enumeration fail to be read only for a bad escape or a long number: each enumerator has
a capture for its name, and one for its value if it has a value. -/
theorem failsOnly_readMembers {bytes : List UInt8} {nodes : List Cursor} {tail : List Capture}
    {given : List Enumerator} (of : action ∈ numberActions)
    (areEnumerators : ∀ enumerator ∈ nodes, enumerator.IsEnumerator)
    (inside : (nodes.flatMap Cursor.named).map (Cursor.leaf bytes) ⊆ captures)
    (enough : steps + nodes.length ≤ captures.length)
    (counting : Counting isMacro captures before known next steps) :
    FailsOnly (Spoiled isMacro captures action) (readMembers known next given (nodes.map Cursor.focus)
      ((nodes.flatMap Cursor.named).map (Cursor.leaf bytes) ++ tail)) before := by
  -- `counting` holds before each enumerator: whatever its value is, the next one counts one step further.
  induction nodes generalizing known next given steps before with
  | nil =>
      rw [List.map_nil, readMembers]
      exact .pure
  | cons enumerator rest ih =>
      rw [List.forall_mem_cons] at areEnumerators
      obtain ⟨name, values, inOrder, _, _⟩ := areEnumerators.1.inOrder
      have length := areEnumerators.1.length_named
      have later : ∀ {number : Option Int} {given : List Enumerator}
          {member : String} (registry : Registry),
          (∀ n, number = some n → Counted isMacro captures steps n) →
          registry.emitted = before.emitted →
          FailsOnly (Spoiled isMacro captures action) (readMembers (match number with
            | some number => (member, number) :: known
            | none => known) (number.getD next + 1) given (rest.map Cursor.focus)
            ((rest.flatMap Cursor.named).map (Cursor.leaf bytes) ++ tail)) registry := by
        intro number given member registry counted same
        refine ih areEnumerators.2 (fun _ isCapture => inside ?_) ?_
          (counting.step registry same counted)
        · rw [List.flatMap_cons, List.map_append]
          exact List.mem_append_right _ isCapture
        · rw [List.length_cons] at enough
          omega
      have there : (((enumerator :: rest).flatMap Cursor.named).map (Cursor.leaf bytes) ++ tail)[0]?
          = some (name.leaf bytes) := by simp [inOrder]
      rw [List.map_cons, readMembers, capture_bind_eq there, areEnumerators.1.drop_captures]
      dsimp only
      cases hasValue : enumerator.focus.hasValue with
      | true =>
          obtain ⟨value, isValue⟩ : ∃ value, values = [value] := by
            rw [inOrder, hasValue] at length
            exact List.length_eq_one_iff.mp (Nat.succ.inj length)
          have there : (((enumerator :: rest).flatMap Cursor.named).map (Cursor.leaf bytes) ++ tail)[1]?
              = some (value.leaf bytes) := by simp [inOrder, isValue]
          have captured : value.leaf bytes ∈ captures := by
            apply inside
            simp [inOrder, isValue]
          simp only [if_true, capture_bind_eq there]
          refine (counting.failsOnly_explicitValue of (by omega) captured).bind fun _ _ explicit => ?_
          obtain rfl := changesNothing_explicitValue _ _ _ _ _ _ explicit
          refine failsOnly_keeping fun kept between same => ?_
          exact later between (fun n => counting.counted_of_explicitValue captured explicit) same
      | false =>
          refine (failsOnly_decimal of (by omega) counting.next).bind fun number _ written => ?_
          obtain rfl := ChangesNothing.decimal _ _ _ written
          refine FailsOnly.pure.bind fun value _ isNext => ?_
          obtain ⟨rfl, rfl⟩ := returns_pure_iff.mp isNext
          refine failsOnly_keeping fun kept between same => ?_
          exact later between (fun n isNumber => Option.some.inj isNumber ▸ counting.next) same

theorem length_le_flatMap_named {nodes : List Cursor}
    (areEnumerators : ∀ enumerator ∈ nodes, enumerator.IsEnumerator) :
    nodes.length ≤ (nodes.flatMap Cursor.named).length := by
  induction nodes with
  | nil => exact Nat.le_refl 0
  | cons enumerator rest ih =>
      rw [List.forall_mem_cons] at areEnumerators
      have more := ih areEnumerators.2
      have some_ := areEnumerators.1.length_named
      rw [List.flatMap_cons, List.length_append, List.length_cons]
      split at some_ <;> omega

/-- An enumeration whose captures are those of its enumerators, and whatever comes after them. -/
theorem failsOnly_emitEnumeration {bytes : List UInt8} {specifier : Cursor} {tail : List Capture}
    {name : String} (of : action ∈ numberActions) (inside : part <:+ captures)
    (areEnumerators : ∀ enumerator ∈ specifier.enumeratorNodes, enumerator.IsEnumerator)
    (body : enumerators specifier.focus = specifier.enumeratorNodes.map Cursor.focus)
    (entries : part
      = (specifier.enumeratorNodes.flatMap Cursor.named).map (Cursor.leaf bytes) ++ tail)
    (macros : before.MacrosAmong isMacro) :
    FailsOnly (Spoiled isMacro captures action)
      (emitEnumeration name specifier.focus part) before := by
  subst entries
  have ofMembers : (specifier.enumeratorNodes.flatMap Cursor.named).map (Cursor.leaf bytes) ⊆ captures :=
    fun _ member => inside.subset (List.mem_append_left _ member)
  have enough : 0 + specifier.enumeratorNodes.length ≤ captures.length := by
    have atMost := inside.length_le
    have atLeast := length_le_flatMap_named areEnumerators
    rw [List.length_append, List.length_map] at atMost
    omega
  unfold emitEnumeration
  apply FailsOnly.declaring
  refine FailsOnly.get.bind fun _ _ read => ?_
  obtain ⟨rfl, rfl⟩ := returns_get_iff.mp read
  rw [body]
  have counting : Counting isMacro captures (before.reserve .enumerations name) [] 0 0 :=
    .start macros
  exact (failsOnly_readMembers of areEnumerators ofMembers enough counting).bind fun _ _ _ => .emit

end

/-! ### Claimed nodes -/

namespace Rules

variable {isMacro : String → Prop} {bytes : List UInt8} {node : Cursor} {action : Action}
  {before : Registry}

/-- What is captured from a node spoils the action for it. -/
abbrev SpoiledBy (isMacro : String → Prop) (bytes : List UInt8) (node : Cursor) (action : Action) :
    RunFault → Prop :=
  Spoiled isMacro (node.capturesAfter bytes []).reverse action

/-- Declaring a specifier with a body, whose tag is captured if it has one, fails only as declaring it under
its name does. -/
theorem failsOnly_declareSpecifier {allowed : RunFault → Prop} {category : Category} {stem : String}
    {captures : List Capture} {tagged : Capture → Run Unit} {untagged : String → Run Unit}
    (there : node.focus.hasName = true → ∃ tag, captures[0]? = some tag)
    (byTag : node.focus.hasName = true → ∀ tag, FailsOnly allowed (tagged tag) before)
    (madeUp : node.focus.hasName = false → ∀ name between,
      (name, between) = before.uniqueName category stem (some node.spanKey) →
        FailsOnly allowed (untagged name) between) :
    FailsOnly allowed (declareSpecifier node category stem captures tagged untagged) before := by
  cases hasName : node.focus.hasName with
  | true =>
      obtain ⟨tag, isTag⟩ := there hasName
      rw [declareSpecifier_of_tag hasName isTag]
      exact byTag hasName tag
  | false =>
      rw [declareSpecifier, if_neg (by simp [hasName])]
      split
      · exact .pure
      · exact FailsOnly.modifyGet.bind fun name between made =>
          madeUp hasName name between (returns_modifyGet_iff.mp made)

theorem failsOnly_declareRecord (claimed : Claims node .declareRecord) :
    FailsOnly (SpoiledBy isMacro bytes node .declareRecord)
      (declareRecord node (node.capturesAfter bytes []).reverse) before := by
  have finds : recordPattern.Finds alphabet none node := finds_of_claims claimed (by simp [shapeList])
  obtain ⟨_, _, leaves, _, _⟩ := leaves_of_listing finds (by decide) (by simp) (by decide)
    (by decide)
  rw [declareRecord_eq]
  refine failsOnly_declareSpecifier (fun hasName => ?_)
    (fun _ _ => failsOnly_emitRecord (by decide) (List.drop_subset _ _))
    (fun _ _ _ _ => failsOnly_emitRecord (by decide) (List.Subset.refl _))
  obtain ⟨tag, rest, others, _, _, captured⟩ := firstCapture_of_tagged bytes leaves hasName
  exact ⟨_, by rw [captured]; rfl⟩

theorem failsOnly_declareEnumeration (claimed : Claims node .declareEnumeration)
    (macros : before.MacrosAmong isMacro) :
    FailsOnly (SpoiledBy isMacro bytes node .declareEnumeration)
      (declareEnumeration node (node.capturesAfter bytes []).reverse) before := by
  have finds : enumerationPattern.Finds alphabet none node :=
    finds_of_claims claimed (by simp [shapeList])
  obtain ⟨leaves, _, areEnumerators, body⟩ := leaves_of_enumeration finds
  have entries := drop_tag_of_enumeration bytes finds []
  rw [List.append_nil, ← captures_of_enumeration finds] at entries
  rw [declareEnumeration_eq]
  refine failsOnly_declareSpecifier (fun hasName => ?_) (fun hasName tag => ?_)
    fun noName name between made => ?_
  · obtain ⟨tag, rest, others, _, _, captured⟩ := firstCapture_of_tagged bytes leaves hasName
    exact ⟨_, by rw [captured]; rfl⟩
  · rw [if_pos hasName] at entries
    exact failsOnly_emitEnumeration (by decide) (List.drop_suffix 1 _) areEnumerators body entries macros
  · rw [if_neg (by simp [noName]), List.drop_zero] at entries
    exact failsOnly_emitEnumeration (by decide) (List.suffix_refl _) areEnumerators body entries
      (macros.of_emitted (Registry.emitted_uniqueName made))

theorem failsOnly_declareTypedefEnumeration (claimed : Claims node .declareTypedefEnumeration)
    (macros : before.MacrosAmong isMacro) :
    FailsOnly (SpoiledBy isMacro bytes node .declareTypedefEnumeration)
      (declareTypedefEnumeration node (node.capturesAfter bytes []).reverse) before := by
  have finds : (typedefAround enumerationPattern).Finds alphabet none node :=
    finds_of_claims claimed (by simp [shapeList])
  obtain ⟨specifier, name, isSpecifier, _, _, captured, _, found⟩ :=
    captures_of_definedEnumeration bytes finds
  obtain ⟨_, _, areEnumerators, body⟩ := leaves_of_enumeration found
  have entries := drop_tag_of_enumeration bytes found [name]
  rw [← captured] at entries
  unfold declareTypedefEnumeration
  rw [Cursor.namedOfKind?_eq, isSpecifier]
  split
  · rename_i isFirst _
    cases isFirst
    exact failsOnly_emitEnumeration (by decide) (List.drop_suffix _ _) areEnumerators body entries macros
  · exact .pure

/-- The action that claims a node fails only as what is captured from the node spoils it. -/
theorem failsOnly_run (claimed : Claims node action)
    (macros : before.MacrosAmong isMacro) :
    FailsOnly (SpoiledBy isMacro bytes node action)
      (action.run (some node) (node.capturesAfter bytes []).reverse) before := by
  cases action with
  | defineConstant => exact failsOnly_defineConstant
  | declareAlias => exact failsOnly_declareAlias
  | declareRecord => exact failsOnly_declareRecord claimed
  | declareTypedefRecord => exact failsOnly_declareTypedefRecord
  | declareEnumeration => exact failsOnly_declareEnumeration claimed macros
  | declareTypedefEnumeration => exact failsOnly_declareTypedefEnumeration claimed macros
  | declareFunction => exact failsOnly_declareFunction

/-- What is captured from one of some nodes spoils the action that claims it. -/
def SpoiledAmong (isMacro : String → Prop) (bytes : List UInt8) (nodes : List Cursor) (fault : RunFault) :
    Prop :=
  ∃ node ∈ nodes, ∃ action, Claims node action ∧ SpoiledBy isMacro bytes node action fault

theorem failsOnly_dispatch
    (macros : before.MacrosAmong isMacro) :
    FailsOnly (SpoiledAmong isMacro bytes [node])
      (table.dispatch alphabet bytes Generation.runDefault node) before := by
  cases isClaim : table.claim? alphabet node with
  | none =>
      rw [Table.dispatch, isClaim]
      exact .pure
  | some claim =>
      rw [Table.dispatch, isClaim]
      dsimp only
      rw [captures_of_claim isClaim]
      cases taken : claim.entry.action with
      | none => exact .pure
      | some action =>
          have claimed : Claims node action := Option.bind_eq_some_iff.mpr ⟨claim, isClaim, taken⟩
          refine FailsOnly.bind ?_ fun _ _ _ => .pure
          exact (failsOnly_run claimed macros).mono fun fault spoiled =>
            ⟨node, List.mem_cons_self, action, claimed, spoiled⟩

end Rules

/-! ### Documents -/

/-- The values of macros when a document is read: those of the registry, and those that the document
defines. -/
def Document.MacroValue (document : Document) (registry : Registry) (value : String) : Prop :=
  (∃ constant, .constant constant ∈ registry.emitted.constants ∧ constant.value = value) ∨
    ∃ name, document.Defines name value

section

variable {document : Document} {start before after : Registry}

theorem Document.macroValue_of_dispatch {node : Cursor} {captures : Option (List Capture)}
    (inside : node ∈ (Cursor.root document.tree).walk)
    (macros : before.MacrosAmong (document.MacroValue start))
    (returns : (Rules.table.dispatch Rules.alphabet document.bytes Generation.runDefault node).Returns
      before captures after) : after.MacrosAmong (document.MacroValue start) := by
  cases claimed : (Rules.table.claim? Rules.alphabet node).bind (·.entry.action) with
  | none => rwa [Table.eq_of_unclaimed claimed returns]
  | some action =>
      intro constant held
      have inConstants : .constant constant ∈ after.emitted.get .constants := held
      rcases (Action.emits (Rules.returns_run_of_dispatch claimed returns).2).mem_emitted inConstants with
        earlier | makes
      · exact macros constant earlier
      · exact Or.inr ⟨constant.name, Document.defines_of_makes inside claimed makes⟩

theorem Document.failsOnly_processNodes {nodes : List Cursor} {claimed : Nat}
    (inside : nodes ⊆ (Cursor.root document.tree).walk)
    (macros : before.MacrosAmong (document.MacroValue start)) :
    FailsOnly (Rules.SpoiledAmong (document.MacroValue start) document.bytes nodes)
      (Rules.table.processNodes Rules.alphabet document.bytes Generation.runDefault claimed nodes)
      before := by
  induction nodes generalizing claimed before with
  | nil => exact .pure
  | cons node rest ih =>
      have later : ∀ claimed registry, registry.MacrosAmong (document.MacroValue start) →
          FailsOnly (Rules.SpoiledAmong (document.MacroValue start) document.bytes (node :: rest))
            (Rules.table.processNodes Rules.alphabet document.bytes Generation.runDefault claimed rest)
            registry := by
        intro claimed registry macros
        refine (ih (List.Subset.trans (List.subset_cons_self _ _) inside) macros).mono ?_
        rintro fault ⟨other, isOther, spoiled⟩
        exact ⟨other, List.mem_cons_of_mem _ isOther, spoiled⟩
      rw [Table.processNodes]
      split
      · refine FailsOnly.bind ?_ fun captures between returns => ?_
        · refine (Rules.failsOnly_dispatch macros).mono ?_
          rintro fault ⟨other, isOther, spoiled⟩
          exact ⟨other, by simp [List.mem_singleton.mp isOther], spoiled⟩
        · have kept := document.macroValue_of_dispatch (inside List.mem_cons_self) macros returns
          cases captures with
          | none => exact later _ _ kept
          | some captures => exact later _ _ kept
      · exact later _ _ macros

/-- Offering all nodes of a document to the default grammar returns a count, whatever was declared
before, unless what is captured from a claimed node spoils the action that claims it: an unsigned
floating type, or in an enumeration a character constant with a bad escape, or a number that is too
long. -/
theorem Document.process_returns_or_faults (document : Document) (before : Registry) :
    (∃ claimed after, (Rules.table.process Rules.alphabet Generation.runDefault document).Returns
      before claimed after) ∨
    ∃ fault after,
      (Rules.table.process Rules.alphabet Generation.runDefault document).Faults before fault after ∧
      ∃ node ∈ (Cursor.root document.tree).walk, ∃ action, Rules.Claims node action ∧
        Spoiled (document.MacroValue before)
          (node.capturesAfter document.bytes []).reverse action fault := by
  refine (returns_or_faults _ before).imp_right ?_
  rintro ⟨fault, after, faults⟩
  have macros : before.MacrosAmong (document.MacroValue before) :=
    fun constant held => Or.inl ⟨constant, held, rfl⟩
  exact ⟨fault, after, faults,
    document.failsOnly_processNodes (List.Subset.refl _) macros fault after faults⟩

end

/-- An enumeration with a character constant whose escape goes on after its hexadecimal digits:
`enum E { A = '\x41z', B };`. -/
def escapeWithoutValue : Document where
  bytes := "enum E \x7b A = '\\x41z', B \x7d;".toUTF8.toList
  tree := .node ⟨"translation_unit", 0, 26, none⟩ [
    .node ⟨"enum_specifier", 0, 25, none⟩ [
      .node ⟨"type_identifier", 5, 6, some "name"⟩ [],
      .node ⟨"enumerator_list", 7, 25, some "body"⟩ [
        .node ⟨"enumerator", 9, 20, none⟩ [
          .node ⟨"identifier", 9, 10, some "name"⟩ [],
          .node ⟨"char_literal", 13, 20, some "value"⟩ [
            .node ⟨"escape_sequence", 14, 18, none⟩ [], .node ⟨"character", 18, 19, none⟩ []]],
        .node ⟨"enumerator", 22, 23, none⟩ [.node ⟨"identifier", 22, 23, some "name"⟩ []]]]]
  hasError := false

/-- A type definition of an unsigned floating type: `typedef unsigned double T;`. -/
def typeWithoutName : Document where
  bytes := "typedef unsigned double T;".toUTF8.toList
  tree := .node ⟨"translation_unit", 0, 26, none⟩ [
    .node ⟨"type_definition", 0, 26, none⟩ [
      .node ⟨"sized_type_specifier", 8, 23, some "type"⟩ [
        .node ⟨"primitive_type", 17, 23, some "type"⟩ []],
      .node ⟨"type_identifier", 24, 25, some "declarator"⟩ []]]
  hasError := false

/-- Two small documents from which generating fails: after it reserved the name of the enumeration, and
of the type. -/
theorem Document.process_faults_unreadable :
    (Rules.table.process Rules.alphabet Generation.runDefault escapeWithoutValue).Faults .empty
      (.badDigits ⟨16, "41z"⟩) (Registry.empty.reserve .enumerations "E") ∧
    (Rules.table.process Rules.alphabet Generation.runDefault typeWithoutName).Faults .empty
      (.unknownSize ⟨"unsigned double"⟩) (Registry.empty.reserve .types "T") := by
  rw [Rules.table_eq, Rules.alphabet_eq]
  decide +kernel

end HeaderBindings
