/-
Module: HeaderBindings.Proofs.MacroNumbers
Purpose: What an enumerator whose value names a macro does to the numbers of the enumerators after it.
Main exports: Reached, readMembers_reached, Run.returns_explicitValue_of_macro, members_of_macro,
  DefinesLiteral, Rules.dispatch_counts_from_macro
-/
import HeaderBindings.Proofs.EmittedDeclarations
import HeaderBindings.Proofs.EnumeratorNumbers
import HeaderBindings.Proofs.FailingDocuments
import HeaderBindings.Proofs.OfferedNodes

namespace HeaderBindings

open Spelling Number Run
open scoped Text

variable {bytes : List UInt8} {before between after registry : Registry}

/-! ### The macro -/

namespace Registry

/-- A macro is found under its name: no other macro has it. -/
theorem Consistent.constant?_eq {constant : Constant} (consistent : registry.Consistent)
    (emitted : .constant constant ∈ registry.emitted.constants) :
    registry.constant? constant.name = some constant := by
  have distinct : (registry.emitted.constants.map Declaration.name).Nodup := by
    have bound := (consistent.bound .constants).nodup_iff.mpr (consistent.distinct .constants)
    rw [boundNames] at bound
    exact bound.of_append_left
  cases found : registry.constant? constant.name with
  | none =>
      rw [constant?, List.find?_eq_none] at found
      have inside : constant ∈ registry.emitted.constants.filterMap Declaration.constant? :=
        List.mem_filterMap.mpr ⟨_, emitted, rfl⟩
      exact absurd (beq_self_eq_true _) (found constant inside)
  | some other =>
      have sameName : other.name = constant.name := by
        rw [constant?] at found
        simpa using List.find?_some found
      have same := List.inj_on_of_nodup_map distinct (mem_of_constant? found) emitted sameName
      rw [Declaration.constant.inj same]

end Registry

/-- A claimed macro whose text is a literal up to a comment is declared under its bound name, if that is
there and new. -/
theorem Rules.emitted_of_macro {node first second : Cursor} {literal : IntegerLiteral}
    {captures : Option (List Capture)} (claimed : Claims node .defineConstant)
    (leaves : node.leaves = [first, second])
    (spells : literal.Spells (beforeComment (second.textIn bytes).toList))
    (named : bindingName (first.textIn bytes) ≠ "")
    (new : before.isDeclared .constants (bindingName (first.textIn bytes)) = false)
    (returns : (table.dispatch alphabet bytes Generation.runDefault node).Returns before captures after) :
    .constant ⟨bindingName (first.textIn bytes), String.ofList literal.moduleText, before.currentHeader⟩
      ∈ after.emitted.constants := by
  obtain ⟨_, ran⟩ := returns_run_of_dispatch claimed returns
  obtain ⟨one, two, found, captured⟩ := captures_of_macro bytes claimed
  obtain ⟨rfl, rfl⟩ : one = first ∧ two = second := by simpa using found.symm.trans leaves
  rw [captured] at ran
  obtain ⟨made, _, isMade, declares⟩ := declaresUnder_defineConstant (one.leaf bytes) (two.leaf bytes) []
    (literal?_of_spells spells)
  rcases declares.takesIn ran with ⟨blocked, _⟩ | ⟨_, left⟩
  · rcases blocked with noName | declared
    · exact absurd noName named
    · exact absurd (declared.symm.trans new) (by decide)
  · rw [left, Registry.emitted_takeIn, isMade]
    exact List.mem_append_right _ (List.mem_singleton_self _)

/-! ### The enumerators before the one that names it -/

/-- Where the enumerators in front of another one are read: they have reserved and know only their own names,
and nothing was emitted. -/
structure Reached (names : List String) (before between : Registry)
    (known : List (String × Int)) : Prop where
  emitted : between.emitted = before.emitted
  stays : ∀ name, before.isDeclared .constants name = true → between.isDeclared .constants name = true
  declared : ∀ name, between.isDeclared .constants name = true →
    before.isDeclared .constants name = true ∨ name ∈ names
  knows : ∀ name ∈ known.map (·.1), name ∈ names

theorem Reached.refl (registry : Registry) (known : List (String × Int)) :
    Reached (known.map (·.1)) registry registry known :=
  ⟨rfl, fun _ => id, fun _ => Or.inl, fun _ => id⟩

theorem Reached.mono {names wider : List String} {known : List (String × Int)}
    (reached : Reached names before between known) (within : ∀ name ∈ names, name ∈ wider) :
    Reached wider before between known where
  emitted := reached.emitted
  stays := reached.stays
  declared name declared := (reached.declared name declared).imp_right (within name)
  knows name member := within name (reached.knows name member)

/-- One more enumerator may be read in front. -/
theorem Reached.after_keeping {names : List String} {known : List (String × Int)} {name : String}
    {kept : Bool} {here : Registry} (reached : Reached names here between known) (own : name ∈ names)
    (keeps : KeepsName name kept before here) : Reached names before between known := by
  rcases keeps with ⟨_, rfl⟩ | ⟨_, _, _, rfl⟩
  · exact reached
  · refine ⟨reached.emitted, fun other declared => reached.stays other ?_, fun other declared => ?_,
      reached.knows⟩
    · rw [isDeclared_reserve, declared, Bool.true_or]
    · rcases reached.declared other declared with earlier | member
      · rw [isDeclared_reserve, Bool.or_eq_true, beq_iff_eq] at earlier
        rcases earlier with earlier | rfl
        · exact Or.inl earlier
        · exact Or.inr own
      · exact Or.inr member

theorem Reached.reserve {names : List String} {known : List (String × Int)}
    (reached : Reached names before between known) (name : String) :
    Reached (names ++ [name]) before (between.reserve .constants name) known where
  emitted := reached.emitted
  stays other declared := by rw [isDeclared_reserve, reached.stays other declared, Bool.true_or]
  declared other declared := by
    rw [isDeclared_reserve, Bool.or_eq_true, beq_iff_eq] at declared
    rcases declared with earlier | rfl
    · exact (reached.declared other earlier).imp_right (List.mem_append_left _)
    · exact Or.inr (List.mem_append_right _ (List.mem_singleton_self _))
  knows other member := List.mem_append_left _ (reached.knows other member)

theorem keepsName_of_keepName {name : String} {kept : Bool}
    (returns : (keepName name).Returns before kept between) : KeepsName name kept before between := by
  unfold keepName at returns
  split at returns
  · exact Or.inl (returns_pure_iff.mp returns)
  · next nonempty =>
      rcases returns_declare_iff.mp returns with ⟨free, rfl, rfl⟩ | ⟨_, rfl, rfl⟩
      · exact Or.inr ⟨rfl, by simpa using nonempty, free, rfl⟩
      · exact Or.inl ⟨rfl, rfl⟩

theorem changesNothing_memberValue (known : List (String × Int)) (next : Int) (enumerator : Tree)
    (captures : List Capture) : ChangesNothing (memberValue known next enumerator captures) := by
  unfold memberValue
  split
  · intro before value after returns
    obtain ⟨_, _, explicit⟩ := returns_capture_bind_iff.mp returns
    exact changesNothing_explicitValue _ _ _ _ _ _ explicit
  · exact ChangesNothing.decimal.bind fun _ => .pure

/-- What is read of an enumerator and those after it: its value, whether its name is kept, and the others. -/
theorem returns_readMembers_enumerator {enumerator : Cursor} {rest : List Cursor} {more : List Capture}
    {known : List (String × Int)} {next : Int} {given result : List Enumerator}
    (isEnumerator : enumerator.IsEnumerator)
    (returns : (readMembers known next given ((enumerator :: rest).map Cursor.focus)
      (enumeratorCaptures bytes (enumerator :: rest) more)).Returns before result after) :
    ∃ value kept between,
      (memberValue known next enumerator.focus (enumeratorCaptures bytes (enumerator :: rest) more)).Returns
        before value before ∧
      (keepName (enumerator.enumeratorName bytes)).Returns before kept between ∧
      (readMembers (knownAfter known (enumerator.enumeratorName bytes) value)
        (value.number.getD next + 1)
        (if kept then given ++ [⟨enumerator.enumeratorName bytes, value.text⟩] else given)
        (rest.map Cursor.focus) (enumeratorCaptures bytes rest more)).Returns between result after := by
  obtain ⟨first, captured, bound⟩ := isEnumerator.capture_name bytes rest more
  rw [List.map_cons, readMembers_cons, capture_bind_eq captured] at returns
  obtain ⟨value, _, valued, keeping⟩ := returns_bind_iff.mp returns
  obtain rfl := changesNothing_memberValue _ _ _ _ _ _ _ valued
  obtain ⟨kept, between, keeps, later⟩ := returns_bind_iff.mp keeping
  rw [bound] at keeps later
  rw [enumeratorCaptures, isEnumerator.drop_captures] at later
  exact ⟨value, kept, between, valued, keeps, later⟩

theorem mem_knownAfter {known : List (String × Int)} {member name : String} {value : EnumeratorValue}
    (inside : name ∈ (knownAfter known member value).map (·.1)) :
    name ∈ known.map (·.1) ∨ name = member := by
  unfold knownAfter at inside
  split at inside
  · rcases List.mem_cons.mp inside with isMember | later
    · exact Or.inr isMember
    · exact Or.inl later
  · exact Or.inl inside

/-- Enumerators are read one after another: what is read of all of them is read of the last ones after the
first ones. -/
theorem readMembers_reached {front back : List Cursor} {more : List Capture} {known : List (String × Int)}
    {next : Int} {given result : List Enumerator}
    (areEnumerators : ∀ enumerator ∈ front, enumerator.IsEnumerator)
    (returns : (readMembers known next given ((front ++ back).map Cursor.focus)
      (enumeratorCaptures bytes (front ++ back) more)).Returns before result after) :
    ∃ known' next' given' between,
      Reached (known.map (·.1) ++ front.map (Cursor.enumeratorName bytes)) before between known' ∧
      (readMembers known' next' given' (back.map Cursor.focus) (enumeratorCaptures bytes back more)).Returns
        between result after := by
  induction front generalizing known next given before with
  | nil =>
      rw [List.map_nil, List.append_nil]
      exact ⟨known, next, given, before, .refl _ _, returns⟩
  | cons enumerator rest ih =>
      rw [List.forall_mem_cons] at areEnumerators
      obtain ⟨value, kept, here, _, keeps, later⟩ :=
        returns_readMembers_enumerator areEnumerators.1 returns
      obtain ⟨known', next', given', between, reached, read⟩ := ih areEnumerators.2 later
      have within : ∀ name ∈ (knownAfter known (enumerator.enumeratorName bytes) value).map (·.1)
            ++ rest.map (Cursor.enumeratorName bytes),
          name ∈ known.map (·.1) ++ (enumerator :: rest).map (Cursor.enumeratorName bytes) := by
        intro name member
        rw [List.map_cons, List.mem_append, List.mem_cons]
        rcases List.mem_append.mp member with inKnown | inRest
        · rcases mem_knownAfter inKnown with earlier | here
          · exact Or.inl earlier
          · exact Or.inr (Or.inl here)
        · exact Or.inr (Or.inr inRest)
      have own : enumerator.enumeratorName bytes
          ∈ known.map (·.1) ++ (enumerator :: rest).map (Cursor.enumeratorName bytes) :=
        List.mem_append_right _ List.mem_cons_self
      exact ⟨known', next', given', between,
        (reached.mono within).after_keeping own (keepsName_of_keepName keeps), read⟩

/-! ### The enumerator that names it -/

/-- A value that names a macro has the macro's name as its text, and the number that is read from the
macro. -/
theorem Run.returns_explicitValue_of_macro {known : List (String × Int)} {next : Int} (capture : Capture)
    {constant : Constant} {number : Option Int} {value : EnumeratorValue}
    (isName : capture.kind = "identifier") (unknown : known.lookup constant.name = none)
    (spelled : bindingName capture.text = constant.name)
    (found : before.constant? constant.name = some constant)
    (reads : integerValue constant.value = .ok number)
    (declared : before.isDeclared .constants constant.name = true)
    (returns : (explicitValue known next capture).Returns before value after) :
    value = ⟨constant.name, number⟩ := by
  unfold explicitValue at returns
  obtain ⟨_, _, fromText, body⟩ := returns_bind_iff.mp returns
  obtain ⟨_, rfl⟩ := returns_ofExcept_iff.mp fromText
  rw [if_pos (by simpa using isName)] at body
  unfold namedValue at body
  rw [spelled] at body
  obtain ⟨macroNumber, _, fromMacro, named⟩ := returns_bind_iff.mp body
  unfold constantNumber at fromMacro
  obtain ⟨_, _, read, searched⟩ := returns_bind_iff.mp fromMacro
  obtain ⟨rfl, rfl⟩ := returns_get_iff.mp read
  rw [found] at searched
  obtain ⟨isNumber, rfl⟩ := returns_ofExcept_iff.mp searched
  obtain rfl := Except.ok.inj (reads.symm.trans isNumber)
  rw [unknown, Option.none_or] at named
  cases number with
  | some number => exact (returns_pure_iff.mp named).1
  | none =>
      obtain ⟨_, _, read, rest⟩ := returns_bind_iff.mp named
      obtain ⟨rfl, rfl⟩ := returns_get_iff.mp read
      rw [if_pos declared] at rest
      exact (returns_pure_iff.mp rest).1

theorem text_of_writeInteger {n : Int} {text : String} (written : writeInteger n = some text) :
    text = toString n := by
  unfold writeInteger at written
  split at written
  · exact (Option.some.inj written).symm
  · cases written

/-- An enumerator whose name is there and new: it is not reserved as a constant, and no enumerator in front
has it. -/
structure IsNew (bytes : List UInt8) (registry : Registry) (front : List Cursor) (enumerator : Cursor) :
    Prop where
  named : enumerator.enumeratorName bytes ≠ ""
  free : registry.isDeclared .constants (enumerator.enumeratorName bytes) = false
  first : enumerator.enumeratorName bytes ∉ front.map (Cursor.enumeratorName bytes)

/-- The name of a new enumerator is kept. -/
theorem IsNew.kept {front : List Cursor} {enumerator : Cursor} {known : List (String × Int)} {kept : Bool}
    {here : Registry} (isNew : IsNew bytes before front enumerator)
    (reached : Reached (front.map (Cursor.enumeratorName bytes)) before between known)
    (keeps : (keepName (enumerator.enumeratorName bytes)).Returns between kept here) :
    kept = true ∧ here = between.reserve .constants (enumerator.enumeratorName bytes) := by
  have free : between.isDeclared .constants (enumerator.enumeratorName bytes) = false := by
    rw [← Bool.not_eq_true]
    intro declared
    rcases reached.declared _ declared with earlier | member
    · exact absurd (earlier.symm.trans isNew.free) (by decide)
    · exact isNew.first member
  exact (returns_keepName isNew.named free).unique keeps

section

variable {front rest back : List Cursor} {enumerator own value : Cursor} {known : List (String × Int)}
  {next : Int} {given result : List Enumerator} {more : List Capture}

/-- The value of an enumerator that names a macro, where no enumerator in front has the macro's name. -/
theorem memberValue_of_macro {constant : Constant} {number : Option Int} {found : EnumeratorValue}
    (isEnumerator : enumerator.IsEnumerator) (inOrder : enumerator.named = [own, value])
    (isName : value.kind = "identifier") (spelled : bindingName (value.textIn bytes) = constant.name)
    (isMacro : before.constant? constant.name = some constant)
    (reads : integerValue constant.value = .ok number)
    (declared : before.isDeclared .constants constant.name = true)
    (unknown : constant.name ∉ known.map (·.1))
    (returns : (memberValue known next enumerator.focus
      (enumeratorCaptures bytes (enumerator :: rest) more)).Returns before found after) :
    found = ⟨constant.name, number⟩ := by
  have hasValue : enumerator.focus.hasValue = true := by
    simpa [inOrder] using isEnumerator.length_named
  have second : (enumeratorCaptures bytes (enumerator :: rest) more)[1]? = some (value.leaf bytes) := by
    simp [enumeratorCaptures, inOrder]
  rw [memberValue, if_pos hasValue, capture_bind_eq second] at returns
  have noEntry : known.lookup constant.name = none := by
    rw [List.lookup_eq_none_iff]
    intro entry member
    have other : constant.name ≠ entry.1 := by
      intro same
      exact unknown (List.mem_map.mpr ⟨entry, member, same.symm⟩)
    simpa using other
  exact returns_explicitValue_of_macro (value.leaf bytes) isName noEntry spelled isMacro reads declared
    returns

/-- A new enumerator without value of its own becomes a member with the number that comes next. -/
theorem readMembers_counted {name : Cursor} (isEnumerator : enumerator.IsEnumerator)
    (onlyName : enumerator.named = [name]) (isNew : IsNew bytes before front enumerator)
    (reached : Reached (front.map (Cursor.enumeratorName bytes)) before between known)
    {knownHere : List (String × Int)}
    (returns : (readMembers knownHere next given ((enumerator :: rest).map Cursor.focus)
      (enumeratorCaptures bytes (enumerator :: rest) more)).Returns between result after) :
    ∃ others, result = given ++ ⟨enumerator.enumeratorName bytes, toString next⟩ :: others := by
  have noValue : enumerator.focus.hasValue = false := by
    simpa [onlyName] using isEnumerator.length_named
  obtain ⟨counted, kept, here, counts, keeps, later⟩ :=
    returns_readMembers_enumerator isEnumerator returns
  rw [memberValue, noValue, if_neg (by decide)] at counts
  obtain ⟨text, _, written, isCounted⟩ := returns_bind_iff.mp counts
  obtain ⟨isText, rfl⟩ := returns_decimal_iff.mp written
  obtain rfl := (returns_pure_iff.mp isCounted).1
  obtain ⟨rfl, rfl⟩ := isNew.kept reached keeps
  rw [if_pos rfl] at later
  obtain ⟨others, isResult, _⟩ := keepsMembers_readMembers later
  exact ⟨others, by rw [isResult, List.append_assoc, List.singleton_append, text_of_writeInteger isText]⟩

/-- An enumerator whose value names a macro, and which is new, is a member with the macro's name as its
value; and if the macro has a number, the member of an enumerator right after it without value of its
own, if that is new, counts one further. -/
theorem members_of_macro (constant : Constant) {number : Option Int}
    (areEnumerators : ∀ node ∈ front ++ enumerator :: back, node.IsEnumerator)
    (inOrder : enumerator.named = [own, value]) (isName : value.kind = "identifier")
    (spelled : bindingName (value.textIn bytes) = constant.name)
    (found : before.constant? constant.name = some constant)
    (reads : integerValue constant.value = .ok number)
    (declared : before.isDeclared .constants constant.name = true)
    (noEnumerator : constant.name ∉ front.map (Cursor.enumeratorName bytes))
    (isNew : IsNew bytes before front enumerator)
    (returns : (readMembers [] 0 [] ((front ++ enumerator :: back).map Cursor.focus)
      (enumeratorCaptures bytes (front ++ enumerator :: back) more)).Returns before result after) :
    ∃ earlier later, result = earlier ++ ⟨enumerator.enumeratorName bytes, constant.name⟩ :: later ∧
      ∀ n second name rest, number = some n → back = second :: rest → second.named = [name] →
        IsNew bytes before (front ++ [enumerator]) second →
        ∃ others, later = ⟨second.enumeratorName bytes, toString (n + 1)⟩ :: others := by
  have isEnumerator := areEnumerators enumerator (by simp)
  obtain ⟨known, next, given, between, reached, read⟩ :=
    readMembers_reached (fun node member => areEnumerators node (List.mem_append_left _ member)) returns
  rw [List.map_nil, List.nil_append] at reached
  obtain ⟨found', kept, here, valued, keeps, later⟩ := returns_readMembers_enumerator isEnumerator read
  have foundHere : between.constant? constant.name = some constant := by
    rw [← found, Registry.constant?, Registry.constant?, reached.emitted]
  obtain rfl : found' = ⟨constant.name, number⟩ :=
    memberValue_of_macro isEnumerator inOrder isName spelled foundHere reads (reached.stays _ declared)
      (fun known => noEnumerator (reached.knows _ known)) valued
  obtain ⟨rfl, rfl⟩ := isNew.kept reached keeps
  rw [if_pos rfl] at later
  obtain ⟨new, isResult, _⟩ := keepsMembers_readMembers later
  refine ⟨given, new, by rw [isResult, List.append_assoc, List.singleton_append], ?_⟩
  intro n second name rest isNumber isBack onlyName secondNew
  subst isNumber isBack
  -- The first two are in front of what is read from here on.
  have further : Reached ((front ++ [enumerator]).map (Cursor.enumeratorName bytes)) before
      (between.reserve .constants (enumerator.enumeratorName bytes)) known := by
    rw [List.map_append, List.map_singleton]
    exact reached.reserve _
  obtain ⟨others, isRest⟩ :=
    readMembers_counted (areEnumerators second (by simp)) onlyName secondNew further later
  exact ⟨others, List.append_cancel_left (isResult.symm.trans isRest)⟩

end

/-! ### From the macro to the enumeration -/

/-- A claimed macro that is offered declares a name that is there and new, and its text is an integer literal
up to a comment. -/
structure DefinesLiteral (bytes : List UInt8) (before : Registry) (node : Cursor) (name : String)
    (literal : IntegerLiteral) (after : Registry) : Prop where
  claimed : Rules.Claims node .defineConstant
  spelled : ∃ first second, node.leaves = [first, second] ∧ name = bindingName (first.textIn bytes) ∧
    literal.Spells (beforeComment (second.textIn bytes).toList)
  named : name ≠ ""
  new : before.isDeclared .constants name = false
  returns : ∃ captures, (Rules.table.dispatch Rules.alphabet bytes Generation.runDefault node).Returns
    before captures after

/-- The macro is found by its name wherever the session goes on to. -/
theorem DefinesLiteral.found {node : Cursor} {name : String} {literal : IntegerLiteral} {later : Registry}
    (defines : DefinesLiteral bytes before node name literal after) (consistent : before.Consistent)
    (steps : Registry.Steps after later) :
    ∃ header, later.constant? name = some ⟨name, String.ofList literal.moduleText, header⟩ ∧
      later.isDeclared .constants name = true := by
  obtain ⟨first, second, leaves, isName, spells⟩ := defines.spelled
  obtain ⟨captures, returns⟩ := defines.returns
  have named := defines.named
  have new := defines.new
  rw [isName] at named new
  have emitted := Rules.emitted_of_macro defines.claimed leaves spells named new returns
  rw [← isName] at emitted
  have stays : .constant ⟨name, String.ofList literal.moduleText, before.currentHeader⟩
      ∈ later.emitted.get .constants := steps.mem_emitted emitted
  have laterConsistent : later.Consistent :=
    consistent.of_steps ((Table.steps_dispatch returns).trans steps)
  refine ⟨before.currentHeader, laterConsistent.constant?_eq stays, ?_⟩
  exact (Module.isDeclared_constants_iff laterConsistent).mpr
    (Or.inl ⟨_, List.mem_filterMap.mpr ⟨_, stays, rfl⟩, rfl⟩)

namespace Rules

/-- A macro with an integer literal sets the count of an enumeration: after a session has declared the
macro, a new enumerator of a new enumeration that names it, and does not name an enumerator in front,
has the macro's name as its value; and an enumerator right after it without value of its own counts one
further than the macro's value, if it is new too and the macro's literal is not octal and no longer than
can be read. -/
theorem dispatch_counts_from_macro {macroBytes : List UInt8} {first middle : List Offer}
    {here next start : Registry} {macroNode cursor specifier enumerator own value : Cursor}
    {action : Action} {macroName name : String} {literal : IntegerLiteral} {front back : List Cursor}
    {captures : Option (List Capture)}
    (earlier : Offer.Pass table alphabet .empty first here)
    (defines : DefinesLiteral macroBytes here macroNode macroName literal next)
    (onward : Offer.Pass table alphabet next middle start)
    (claimed : Claims cursor action)
    (site : EnumerationName bytes start action cursor specifier name before)
    (named : name ≠ "") (new : before.isDeclared .enumerations name = false)
    (returns : (table.dispatch alphabet bytes Generation.runDefault cursor).Returns start captures after)
    (body : specifier.enumeratorNodes = front ++ enumerator :: back)
    (inOrder : enumerator.named = [own, value]) (isName : value.kind = "identifier")
    (spelled : bindingName (value.textIn bytes) = macroName)
    (noEnumerator : macroName ∉ front.map (Cursor.enumeratorName bytes))
    (isNew : IsNew bytes before front enumerator) :
    ∃ members, after.emitted = start.emitted.modify .enumerations
        (· ++ [.enumeration ⟨name, start.currentHeader, members⟩]) ∧
      ∃ inFront behind, members = inFront ++ ⟨enumerator.enumeratorName bytes, macroName⟩ :: behind ∧
        (literal.base ≠ .octal → literal.Readable →
          ∀ second secondName rest, back = second :: rest →
          second.named = [secondName] → IsNew bytes before (front ++ [enumerator]) second →
          ∃ others, behind
            = ⟨second.enumeratorName bytes, toString (literal.value + 1)⟩ :: others) := by
  obtain ⟨emitted, header, steps⟩ := site.frame
  obtain ⟨finds, ran⟩ := returns_run_of_dispatch claimed returns
  obtain ⟨⟨_, found⟩, more, returns_iff⟩ := site.returns_run_iff finds
  obtain ⟨_, _, areEnumerators, trees⟩ := leaves_of_enumeration found
  obtain ⟨macroHeader, isMacro, declared⟩ := defines.found earlier.consistent (onward.steps.trans steps)
  rcases returns_emitEnumeration_iff.mp ((returns_iff after).mp ran) with
    ⟨blocked, _⟩ | ⟨_, _, members, between, read, rfl⟩
  · rcases blocked with noName | taken
    · exact absurd noName named
    · exact absurd (taken.symm.trans new) (by decide)
  · refine ⟨members, by rw [emitted_of_readMembers read, emitted, header], ?_⟩
    rw [trees, body] at read
    rw [body] at areEnumerators
    have noApostrophe : '\'' ∉ (String.ofList literal.moduleText).toList := by
      rw [String.toList_ofList]
      exact fun member => IntegerLiteral.marks_not_mem_letters.2.1
        (IntegerLiteral.mem_letters_of_mem_moduleText member)
    have still : (before.reserve .enumerations name).constant? macroName
        = some ⟨macroName, String.ofList literal.moduleText, macroHeader⟩ := isMacro
    obtain ⟨inFront, behind, isMembers, counts⟩ := members_of_macro
      ⟨macroName, String.ofList literal.moduleText, macroHeader⟩ areEnumerators
        inOrder isName spelled still
      (integerValue_of_noApostrophe noApostrophe) declared noEnumerator
      ⟨isNew.named, isNew.free, isNew.first⟩ read
    refine ⟨inFront, behind, isMembers,
      fun notOctal readable second secondName rest isBack onlyName secondNew =>
        counts _ second secondName rest ?_ isBack onlyName
          ⟨secondNew.named, secondNew.free, secondNew.first⟩⟩
    have reads := integerValue_moduleText readable
    rw [if_neg notOctal, integerValue_of_noApostrophe noApostrophe] at reads
    exact Except.ok.inj reads

/-! ### Enumerations after a macro -/

/-- The tree of a macro with a text of four characters, and of an enumeration after it. -/
def countsFromTree : Tree :=
  .node ⟨"translation_unit", 0, 41, none⟩ [
    .node ⟨"preproc_def", 0, 18, none⟩ [
      .node ⟨"identifier", 8, 12, some "name"⟩ [],
      .node ⟨"preproc_arg", 13, 17, some "value"⟩ []],
    .node ⟨"enum_specifier", 18, 40, none⟩ [
      .node ⟨"type_identifier", 23, 24, some "name"⟩ [],
      .node ⟨"enumerator_list", 25, 40, some "body"⟩ [
        .node ⟨"enumerator", 27, 35, none⟩ [
          .node ⟨"identifier", 27, 28, some "name"⟩ [],
          .node ⟨"identifier", 31, 35, some "value"⟩ []],
        .node ⟨"enumerator", 37, 38, none⟩ [
          .node ⟨"identifier", 37, 38, some "name"⟩ []]]]]

/-- The source of both: the macro `BASE` with this text, and `enum F { X = BASE, Y };`. -/
def countsFromBytes (text : String) : List UInt8 :=
  ("#define BASE " ++ text ++ "\nenum F \x7b X = BASE, Y \x7d;").toUTF8.toList

/-- The macro. -/
def countsFromMacro : Cursor :=
  (Cursor.root countsFromTree).named.headD (Cursor.root countsFromTree)

/-- The enumeration. -/
def countsFromEnumeration : Cursor :=
  ((Cursor.root countsFromTree).named.drop 1).headD (Cursor.root countsFromTree)

/-- The registry after the macro, whose literal is written this way for a module. -/
def afterMacro (literal : String) : Registry :=
  { Registry.empty with
    declared := ⟨["BASE"], [], [], []⟩
    emitted := ⟨[.constant ⟨"BASE", literal, ""⟩], [], [], []⟩ }

/-- The registry after the enumeration, with this value of `Y`. -/
def afterEnumeration (literal count : String) : Registry :=
  { Registry.empty with
    declared := ⟨["BASE", "X", "Y"], [], ["F"], []⟩
    emitted := ⟨[.constant ⟨"BASE", literal, ""⟩], [],
      [.enumeration ⟨"F", "", [⟨"X", "BASE"⟩, ⟨"Y", count⟩]⟩], []⟩ }

theorem site_countsFrom (text : String) (registry : Registry)
    (spelled : bindingName ((Cursor.named countsFromEnumeration).headD countsFromEnumeration |>.textIn
      (countsFromBytes text)) = "F") :
    EnumerationName (countsFromBytes text) registry .declareEnumeration countsFromEnumeration
      countsFromEnumeration "F" registry := by
  rw [← spelled]
  exact .tag rfl

/-- The macro declares its name with the literal that its text is. -/
theorem definesLiteral_countsFrom {text : String} {literal : IntegerLiteral} {after : Registry}
    (isText : beforeComment ((countsFromMacro.named.getLastD countsFromMacro).textIn
      (countsFromBytes text)).toList = literal.text)
    (isName : bindingName ((countsFromMacro.named.headD countsFromMacro).textIn
      (countsFromBytes text)) = "BASE")
    (returns : (table.dispatch alphabet (countsFromBytes text) Generation.runDefault countsFromMacro).Returns
      .empty (some (countsFromMacro.capturesAfter (countsFromBytes text) []).reverse) after) :
    DefinesLiteral (countsFromBytes text) .empty countsFromMacro "BASE" literal after where
  claimed := by decide +kernel
  spelled := by
    refine ⟨countsFromMacro.named.headD countsFromMacro, countsFromMacro.named.getLastD countsFromMacro,
      rfl, isName.symm, ?_⟩
    rw [isText, ← List.append_nil literal.text]
    exact .suffixed IntegerLiteral.isSuffix_nil
  named := by decide
  new := rfl
  returns := ⟨_, returns⟩

/-- After the macro `BASE` with the text `0x10`, the enumerator after the one that names it counts 17. -/
theorem dispatch_counts_from_macro_hexadecimal :
    DefinesLiteral (countsFromBytes "0x10") .empty countsFromMacro "BASE" hexadecimalSixteen
        (afterMacro "0x10") ∧
      (table.dispatch alphabet (countsFromBytes "0x10") Generation.runDefault countsFromEnumeration).Returns
        (afterMacro "0x10") (some (countsFromEnumeration.capturesAfter (countsFromBytes "0x10") []).reverse)
        (afterEnumeration "0x10" "17") ∧
      ∃ members, (afterEnumeration "0x10" "17").emitted = (afterMacro "0x10").emitted.modify .enumerations
          (· ++ [.enumeration ⟨"F", "", members⟩]) ∧
        ∃ inFront others, members
          = inFront ++ ⟨"X", "BASE"⟩ :: ⟨"Y", toString (hexadecimalSixteen.value + 1)⟩
            :: others := by
  have defines : DefinesLiteral (countsFromBytes "0x10") .empty countsFromMacro "BASE" hexadecimalSixteen
      (afterMacro "0x10") := by
    apply definesLiteral_countsFrom (by decide +kernel) (by decide +kernel)
    rw [table_eq, alphabet_eq]
    decide +kernel
  have returns : (table.dispatch alphabet (countsFromBytes "0x10") Generation.runDefault
      countsFromEnumeration).Returns (afterMacro "0x10")
        (some (countsFromEnumeration.capturesAfter (countsFromBytes "0x10") []).reverse)
        (afterEnumeration "0x10" "17") := by
    rw [table_eq, alphabet_eq]
    decide +kernel
  have site := site_countsFrom "0x10" (afterMacro "0x10") (by decide +kernel)
  let enumerators := countsFromEnumeration.enumeratorNodes
  let x := enumerators.headD countsFromEnumeration
  let y := enumerators.getLastD countsFromEnumeration
  have names : Cursor.enumeratorName (countsFromBytes "0x10") x = "X" ∧
      Cursor.enumeratorName (countsFromBytes "0x10") y = "Y" := by decide +kernel
  have body : countsFromEnumeration.enumeratorNodes = [] ++ x :: [y] := rfl
  have isNew : IsNew (countsFromBytes "0x10") (afterMacro "0x10") [] x :=
    ⟨by decide +kernel, by decide +kernel, by simp⟩
  obtain ⟨members, emitted, inFront, behind, isMembers, counts⟩ :=
    dispatch_counts_from_macro .done defines
    .done (by decide +kernel) site (by decide) rfl returns body rfl rfl (by decide +kernel) (by simp) isNew
  obtain ⟨others, rfl⟩ := counts (by decide) (by decide) y _ [] rfl rfl
    ⟨by decide +kernel, by decide +kernel, by decide +kernel⟩
  rw [names.1, names.2] at isMembers
  exact ⟨defines, returns, members, emitted, inFront, others, isMembers⟩

/-- The literal `0755`. -/
def octalPermissions : IntegerLiteral where
  sign := .absent
  base := .octal
  digits := ['7', '5', '5']
  nonempty := by decide
  inBase := by decide
  noLeadingZero := by simp

/-- After the macro `BASE` with the text `0755`, the enumerator after the one that names it counts 1. -/
theorem not_counted_from_octal :
    octalPermissions.value = 493 ∧
      DefinesLiteral (countsFromBytes "0755") .empty countsFromMacro "BASE" octalPermissions
        (afterMacro "0o755") ∧
      Claims countsFromEnumeration .declareEnumeration ∧
      EnumerationName (countsFromBytes "0755") (afterMacro "0o755") .declareEnumeration countsFromEnumeration
        countsFromEnumeration "F" (afterMacro "0o755") ∧
      (table.dispatch alphabet (countsFromBytes "0755") Generation.runDefault countsFromEnumeration).Returns
        (afterMacro "0o755") (some (countsFromEnumeration.capturesAfter (countsFromBytes "0755") []).reverse)
        (afterEnumeration "0o755" "1") := by
  refine ⟨by decide, ?_, by decide +kernel, site_countsFrom "0755" _ (by decide +kernel), ?_⟩
  · apply definesLiteral_countsFrom (by decide +kernel) (by decide +kernel)
    rw [table_eq, alphabet_eq]
    decide +kernel
  · rw [table_eq, alphabet_eq]
    decide +kernel

end Rules

end HeaderBindings
