/-
Module: HeaderBindings.Proofs.EnumeratorNumbers
Purpose: The members of a declared enumeration stand for the numbers that C gives its enumerators.
Main exports: readMembers_cons, ExplicitNumber, Numbered, Faithful, evaluate,
  returns_readMembers_numbered, EnumerationName, Rules.dispatch_numbers_enumeration
-/
import HeaderBindings.Proofs.CharacterConstants
import HeaderBindings.Proofs.ClaimedCaptures
import HeaderBindings.Proofs.FieldConstants
import HeaderBindings.Proofs.SelfTypedefs

namespace HeaderBindings

open Spelling Number Run
open scoped Text

/-! ### One enumerator after another -/

/-- The value of an enumerator: the one that it has of its own, or the number that comes next. -/
def memberValue (known : List (String × Int)) (next : Int) (enumerator : Tree)
    (captures : List Capture) : Run EnumeratorValue :=
  if enumerator.hasValue then Run.capture captures 1 >>= explicitValue known next
  else Run.decimal next >>= fun text => pure ⟨text, some next⟩

/-- Reserve the name of a member, if there is one; answer whether it was there and free. -/
def keepName (name : String) : Run Bool :=
  if name.isEmpty then pure false else Run.declare .constants name

/-- What is known after an enumerator has got its value. -/
def knownAfter (known : List (String × Int)) (member : String) (value : EnumeratorValue) :
    List (String × Int) :=
  match value.number with
  | some number => (member, number) :: known
  | none => known

/-- An enumerator's name is captured, then its value is found, then its name is kept or not. -/
theorem readMembers_cons (known : List (String × Int)) (next : Int) (given : List Enumerator)
    (enumerator : Tree) (rest : List Tree) (captures : List Capture) :
    readMembers known next given (enumerator :: rest) captures
      = Run.capture captures 0 >>= fun first =>
        memberValue known next enumerator captures >>= fun value =>
        keepName (bindingName first.text) >>= fun kept =>
        readMembers (knownAfter known (bindingName first.text) value) (value.number.getD next + 1)
          (if kept then given ++ [⟨bindingName first.text, value.text⟩] else given) rest
          (captures.drop (if enumerator.hasValue then 2 else 1)) := by
  rw [readMembers]
  apply bind_congr
  intro first
  unfold memberValue keepName
  cases enumerator.hasValue
  · simp only [Bool.false_eq_true, if_false, bind_assoc, pure_bind]
    apply bind_congr
    intro text
    split <;> rfl
  · simp only [if_true, bind_assoc]
    apply bind_congr
    intro capture
    apply bind_congr
    intro value
    split <;> rfl

theorem returns_keepName {registry : Registry} {name : String} (named : name ≠ "")
    (free : registry.isDeclared .constants name = false) :
    (keepName name).Returns registry true (registry.reserve .constants name) := by
  rw [keepName, if_neg (by simpa using named)]
  exact returns_declare_iff.mpr (Or.inl ⟨free, rfl, rfl⟩)

theorem FreshConstants.tail {registry : Registry} {name : String} {names : List String}
    (fresh : FreshConstants registry (name :: names)) :
    (keepName name).Returns registry true (registry.reserve .constants name) ∧
      FreshConstants (registry.reserve .constants name) names := by
  have named : name ≠ "" := fun empty => fresh.named (by simp [empty])
  have free := fresh.free name List.mem_cons_self
  have apart := List.nodup_cons.mp fresh.distinct
  constructor
  · exact returns_keepName named free
  · refine ⟨fun empty => fresh.named (List.mem_cons_of_mem _ empty), fun other member => ?_, apart.2⟩
    have different : other ≠ name := by
      rintro rfl
      exact apart.1 member
    rw [isDeclared_reserve, fresh.free other (List.mem_cons_of_mem _ member)]
    simpa using different

/-! ### The numbers that C gives -/

variable {bytes : List UInt8} {known : List (String × Int)} {next number : Int} {value : Cursor}
  {registry : Registry}

/-- The name under which an enumerator is bound. -/
def Cursor.enumeratorName (bytes : List UInt8) (enumerator : Cursor) : String :=
  bindingName ((enumerator.named.map (Cursor.textIn bytes)).headD "")

/-- The number that C gives an explicit value, given the numbers of the enumerators before it: that of an
integer literal, of a character constant, or of the enumerator that it names. Blanks matter in a character
constant only. Where C leaves the value of a constant to its implementations, it is the one that is read. -/
inductive ExplicitNumber (bytes : List UInt8) (known : List (String × Int)) (value : Cursor) :
    Int → Prop where
  | literal {literal : IntegerLiteral} (noName : value.kind ≠ "identifier")
      (noConstant : value.kind ≠ "char_literal") (spells : literal.Spells (value.textIn bytes).toList) :
      ExplicitNumber bytes known value literal.value
  | constant {code : Nat} (isConstant : value.kind = "char_literal")
      (constant : CharacterConstant (Document.textOf bytes value) code) :
      ExplicitNumber bytes known value code
  | otherConstant {number : Int} (isConstant : value.kind = "char_literal")
      (unknown : ∀ code, ¬ CharacterConstant (Document.textOf bytes value) code)
      (reads : integerValue (value.textIn bytes) = .ok (some number)) :
      ExplicitNumber bytes known value number
  | name {number : Int} (isName : value.kind = "identifier")
      (noApostrophe : '\'' ∉ (value.textIn bytes).toList)
      (found : known.lookup (value.textIn bytes) = some number) :
      ExplicitNumber bytes known value number

/-- The numbers that C gives to enumerators: of an explicit value, or one more than the number before; the
first counts from zero. -/
inductive Numbered (bytes : List UInt8) :
    List (String × Int) → Int → List Cursor → List Int → Prop where
  | nil {known : List (String × Int)} {next : Int} : Numbered bytes known next [] []
  | counted {known : List (String × Int)} {next : Int} {enumerator name : Cursor} {rest : List Cursor}
      {numbers : List Int} (inOrder : enumerator.named = [name])
      (later : Numbered bytes ((name.textIn bytes, next) :: known) (next + 1) rest numbers) :
      Numbered bytes known next (enumerator :: rest) (next :: numbers)
  | given {known : List (String × Int)} {next number : Int} {enumerator name value : Cursor}
      {rest : List Cursor} {numbers : List Int} (inOrder : enumerator.named = [name, value])
      (explicit : ExplicitNumber bytes known value number)
      (later : Numbered bytes ((name.textIn bytes, number) :: known) (number + 1) rest numbers) :
      Numbered bytes known next (enumerator :: rest) (number :: numbers)

/-- The text of a value says in a module what it says in C: no name is bound as a number, and a character
constant is read with the value that C gives it. -/
structure Faithful (bytes : List UInt8) (value : Cursor) : Prop where
  name : value.kind = "identifier" → readInteger 0 (bindingName (value.textIn bytes)).toList = none
  constant : value.kind = "char_literal" →
    ∀ code, CharacterConstant (Document.textOf bytes value) code →
    integerValue (value.textIn bytes) = .ok (some (code : Int))

/-- A value that is an integer literal and a suffix has the value of the literal. -/
theorem ExplicitNumber.of_text (literal : IntegerLiteral) (suffix : List Char)
    (noName : value.kind ≠ "identifier") (noConstant : value.kind ≠ "char_literal")
    (isSuffix : IntegerLiteral.IsSuffix suffix)
    (spelled : value.textIn bytes = String.ofList (literal.text ++ suffix))
    (isValue : literal.value = number) : ExplicitNumber bytes known value number := by
  rw [← isValue]
  refine .literal noName noConstant ?_
  rw [spelled, String.toList_ofList]
  exact .suffixed isSuffix

/-- A constant that C spells has the code of its character. -/
theorem ExplicitNumber.of_code (lead : List Char × Nat) {body : List Char} {code : Nat}
    (isLead : lead ∈ constantLeads) (small : code < lead.2)
    (spells : SpellsCode body code ∨ UniversalName body code) (isConstant : value.kind = "char_literal")
    (spelled : Document.textOf bytes value = String.ofList (lead.1 ++ '\'' :: (body ++ ['\''])))
    (isValue : (code : Int) = number) : ExplicitNumber bytes known value number := by
  rw [← isValue]
  refine .constant isConstant ?_
  rw [spelled]
  exact .spelled isLead small spells

/-- The text of a constant without a universal character name, and without blanks that are written otherwise,
says in a module what it says in C. -/
theorem Faithful.of_code (lead : List Char × Nat) {body : List Char} {code : Nat}
    (isLead : lead ∈ constantLeads) (spells : SpellsCode body code)
    (isConstant : value.kind = "char_literal")
    (spelled : Document.textOf bytes value = String.ofList (lead.1 ++ '\'' :: (body ++ ['\''])))
    (kept : value.textIn bytes = Document.textOf bytes value) : Faithful bytes value where
  name isName := absurd (isName.symm.trans isConstant) (by decide)
  constant _ other constant := by
    rw [spelled] at constant
    rw [kept, spelled, constant.code_eq isLead spells]
    exact integerValue_of_code isLead spells

theorem Faithful.of_kind (noName : value.kind ≠ "identifier")
    (noConstant : value.kind ≠ "char_literal") :
    Faithful bytes value where
  name isName := absurd isName noName
  constant isConstant := absurd isConstant noConstant

theorem Faithful.of_name (isName : value.kind = "identifier")
    (noNumber : readInteger 0 (bindingName (value.textIn bytes)).toList = none) : Faithful bytes value where
  name _ := noNumber
  constant isConstant := absurd (isName.symm.trans isConstant) (by decide)

/-- The numbers that members stand for, one after another: the text of a member is a number, or the name of a
member before it. -/
def evaluate (before : List (String × Int)) : List Enumerator → Option (List Int)
  | [] => some []
  | member :: rest =>
      match (readInteger 0 member.value.toList).or (before.lookup member.value) with
      | some number => (evaluate ((member.name, number) :: before) rest).map (number :: ·)
      | none => none

theorem evaluate_cons {before : List (String × Int)} {member : Enumerator} {rest : List Enumerator}
    {number : Int} {numbers : List Int}
    (stands : (readInteger 0 member.value.toList).or (before.lookup member.value) = some number)
    (later : evaluate ((member.name, number) :: before) rest = some numbers) :
    evaluate before (member :: rest) = some (number :: numbers) := by
  rw [evaluate, stands]
  dsimp only
  rw [later, Option.map_some]

/-! ### The numbers that are read -/

/-- What is known of enumerators, under the names that they are bound by. -/
def boundKnown (known : List (String × Int)) : List (String × Int) :=
  known.map fun entry => (bindingName entry.1, entry.2)

/-- The bound names of enumerators find the numbers that their own names find, if they are different. -/
theorem lookup_boundKnown {known : List (String × Int)} {spelled : String} {number : Int}
    (distinct : ((boundKnown known).map (·.1)).Nodup) (found : known.lookup spelled = some number) :
    (boundKnown known).lookup (bindingName spelled) = some number := by
  induction known with
  | nil => cases found
  | cons entry rest ih =>
      obtain ⟨first, value⟩ := entry
      have apart := List.nodup_cons.mp distinct
      by_cases same : spelled = first
      · subst same
        rw [List.lookup_cons_self] at found
        cases found
        exact List.lookup_cons_self
      · rw [List.lookup_cons, (beq_eq_false_iff_ne).mpr same] at found
        have later := ih apart.2 found
        have other : bindingName spelled ≠ bindingName first := by
          intro equal
          exact apart.1 (List.mem_map.mpr ⟨_, mem_of_lookup later, equal⟩)
        simp only [boundKnown, List.map_cons, List.lookup_cons, (beq_eq_false_iff_ne).mpr other]
        exact later

/-- A number that can be written is counted with a text that reads back as the number. -/
theorem returns_decimal_of_small (small : number.natAbs < 10 ^ decimalLimit) (registry : Registry) :
    (Run.decimal number).Returns registry (toString number) registry ∧
      readInteger 0 (toString number).toList = some number := by
  refine ⟨returns_decimal_iff.mpr ⟨?_, rfl⟩, readInteger_toString small⟩
  rw [writeInteger, Nat.pow_eq, if_pos small]

/-- A character constant with a value counts as that value. -/
theorem returns_explicitValue_of_constant {text : String} (reads : integerValue text = .ok (some number))
    (small : number.natAbs < 10 ^ decimalLimit) :
    (explicitValue known next ⟨"char_literal", text⟩).Returns registry ⟨toString number, some number⟩
      registry := by
  obtain ⟨written, -⟩ := returns_decimal_of_small small registry
  unfold explicitValue
  refine (returns_ofExcept_iff.mpr ⟨reads, rfl⟩).bind ?_
  exact written.bind (returns_pure_iff.mpr ⟨rfl, rfl⟩)

theorem returns_constantNumber_of_none {name : String} (noMacro : registry.constant? name = none) :
    (constantNumber name).Returns registry none registry := by
  unfold constantNumber
  refine (returns_get_iff.mpr ⟨rfl, rfl⟩).bind ?_
  rw [noMacro]
  exact returns_pure_iff.mpr ⟨rfl, rfl⟩

theorem Registry.Consistent.constant?_eq_none {name : String} (consistent : registry.Consistent)
    (free : registry.isDeclared .constants name = false) : registry.constant? name = none := by
  rw [← Bool.not_eq_true, Module.isDeclared_constants_iff consistent, not_or] at free
  rw [Registry.constant?, List.find?_eq_none]
  intro constant declared isName
  exact free.1 ⟨constant, declared, by simpa using isName⟩

/-- An explicit value is read with the number that C gives it, and its text stands for that number. -/
theorem returns_explicitValue (explicit : ExplicitNumber bytes known value number)
    (faithful : Faithful bytes value) (small : number.natAbs < 10 ^ decimalLimit)
    (distinct : ((boundKnown known).map (·.1)).Nodup)
    (noMacro : ∀ name ∈ (boundKnown known).map (·.1), registry.constant? name = none) :
    ∃ text, (explicitValue (boundKnown known) next (value.leaf bytes)).Returns registry
        ⟨text, some number⟩ registry ∧
      (readInteger 0 text.toList).or ((boundKnown known).lookup text) = some number := by
  cases explicit with
  | @literal literal noName noConstant spells =>
      have readable : literal.Readable := readable_of_small small
      have isLiteral : literal? (value.textIn bytes) = some (String.ofList literal.moduleText) := by
        apply literal?_of_spells
        rwa [IntegerLiteral.beforeComment_eq_self spells.not_mem.1]
      refine ⟨String.ofList literal.moduleText, ?_, ?_⟩
      · unfold explicitValue
        refine (returns_ofExcept_iff.mpr ⟨integerValue_of_spells spells readable, rfl⟩).bind ?_
        simp [Cursor.leaf, noName, noConstant, isLiteral]
      · rw [String.toList_ofList, readInteger_moduleText readable, Option.some_or]
  | @constant code isConstant constant =>
      obtain ⟨-, read⟩ := returns_decimal_of_small small registry
      refine ⟨toString (code : Int), ?_, by rw [read, Option.some_or]⟩
      rw [Cursor.leaf, isConstant]
      exact returns_explicitValue_of_constant (faithful.constant isConstant code constant) small
  | otherConstant isConstant _ reads =>
      obtain ⟨-, read⟩ := returns_decimal_of_small small registry
      refine ⟨toString number, ?_, by rw [read, Option.some_or]⟩
      rw [Cursor.leaf, isConstant]
      exact returns_explicitValue_of_constant reads small
  | name isName noApostrophe found =>
      have bound := lookup_boundKnown distinct found
      have free := noMacro _ (List.mem_map.mpr ⟨_, mem_of_lookup bound, rfl⟩)
      refine ⟨bindingName (value.textIn bytes), ?_, by rw [faithful.name isName, Option.none_or, bound]⟩
      unfold explicitValue
      refine (returns_ofExcept_iff.mpr ⟨integerValue_of_noApostrophe noApostrophe, rfl⟩).bind ?_
      rw [if_pos (by simpa [Cursor.leaf] using isName)]
      refine (returns_constantNumber_of_none free).bind ?_
      simp only [Cursor.leaf, bound, Option.some_or]
      exact returns_pure_iff.mpr ⟨rfl, rfl⟩

/-- Every character constant has a value, and an enumeration counts on from it. The value is the code of the
constant's character, unless that is a universal character name: of such a name only the letter is read. -/
theorem characterConstant_counts {lead body : List Char} {bound code : Nat}
    (isLead : (lead, bound) ∈ constantLeads) (spells : SpellsCode body code ∨ UniversalName body code) :
    ∃ value : Nat,
      integerValue (String.ofList (lead ++ '\'' :: (body ++ ['\'']))) = .ok (some (value : Int)) ∧
      (SpellsCode body code → value = code) ∧
      (∀ letter digits, body = '\\' :: letter :: digits → UniversalName body code →
        value = letter.toNat) ∧
      (value < 10 ^ decimalLimit → ∀ known next registry,
        (explicitValue known next
            ⟨"char_literal", String.ofList (lead ++ '\'' :: (body ++ ['\'']))⟩).Returns registry
          ⟨toString (value : Int), some (value : Int)⟩ registry) := by
  rcases spells with spelled | named
  · have reads := integerValue_of_code isLead spelled
    refine ⟨code, reads, fun _ => rfl, fun letter digits _ name => ?_,
      fun small known next registry => ?_⟩
    · exact absurd name spelled.not_universalName
    · exact returns_explicitValue_of_constant reads small
  · cases body with
    | nil => cases named
    | cons mark rest =>
        cases rest with
        | nil => cases named
        | cons letter digits =>
            obtain rfl : mark = '\\' := by
              cases named
              rfl
            have reads := integerValue_of_body isLead named.quotedBody?_eq named.charValue_eq
            refine ⟨letter.toNat, reads, fun spelled => ?_, ?_, fun small known next registry => ?_⟩
            · exact absurd named spelled.not_universalName
            · rintro other others same -
              rw [(List.cons.inj (List.cons.inj same).2).1]
            · exact returns_explicitValue_of_constant reads small

/-- The constant `L'\x414'` has the value 1044, and an enumeration counts on from it. -/
theorem characterConstant_counts_hexadecimal :
    (['L'], 65536) ∈ constantLeads ∧ SpellsCode ['\\', 'x', '4', '1', '4'] 1044 ∧
      integerValue "L'\\x414'" = .ok (some 1044) ∧
      (explicitValue [] 0 ⟨"char_literal", "L'\\x414'"⟩).Returns .empty
        ⟨"1044", some 1044⟩ .empty := by
  have isLead : (['L'], 65536) ∈ constantLeads := by decide
  have spells : SpellsCode ['\\', 'x', '4', '1', '4'] 1044 :=
    .hexadecimal (by decide) (by decide)
  obtain ⟨value, reads, isCode, -, counts⟩ := characterConstant_counts isLead (Or.inl spells)
  obtain rfl := isCode spells
  have small : 1044 < 10 ^ decimalLimit :=
    Nat.lt_of_lt_of_le (by decide) (Nat.pow_le_pow_right (by decide) (by decide : 4 ≤ decimalLimit))
  exact ⟨isLead, spells, reads, counts small [] 0 .empty⟩

/-- The universal character name of `é`. -/
theorem universalName_eAcute : UniversalName ['\\', 'u', '0', '0', 'e', '9'] 233 := by
  have sized : ('u', ['0', '0', 'e', '9'].length) ∈ [('u', 4), ('U', 8)] := by decide
  exact .named sized (by decide)

/-- The constant `u'\u00e9'` has the code 233 in C, but the code of the letter `u` is read. -/
theorem misread_universalName :
    CharacterConstant "u'\\u00e9'" 233 ∧ integerValue "u'\\u00e9'" = .ok (some 117) := by
  have isLead : (['u'], 65536) ∈ constantLeads := by decide
  constructor
  · exact .spelled isLead (by decide) (Or.inr universalName_eAcute)
  · have read :=
      integerValue_of_body isLead universalName_eAcute.quotedBody?_eq universalName_eAcute.charValue_eq
    exact read

/-- The captures of enumerators, and whatever comes after them. -/
def enumeratorCaptures (bytes : List UInt8) (nodes : List Cursor) (more : List Capture) : List Capture :=
  (nodes.flatMap Cursor.named).map (Cursor.leaf bytes) ++ more

section

variable {nodes rest : List Cursor} {enumerator : Cursor} {more : List Capture}
  {given result : List Enumerator} {between after : Registry}

theorem Cursor.IsEnumerator.capture_name (isEnumerator : enumerator.IsEnumerator) (bytes : List UInt8)
    (rest : List Cursor) (more : List Capture) :
    ∃ first, (enumeratorCaptures bytes (enumerator :: rest) more)[0]? = some first ∧
      bindingName first.text = enumerator.enumeratorName bytes := by
  obtain ⟨name, values, inOrder, _⟩ := isEnumerator.inOrder
  exact ⟨name.leaf bytes, by simp [enumeratorCaptures, inOrder],
    by simp [Cursor.enumeratorName, inOrder, Cursor.leaf]⟩

/-- An enumerator whose value is found and whose name is kept is a member, and the others are read after
it. -/
theorem returns_readMembers_kept {known : List (String × Int)} {value : EnumeratorValue}
    (isEnumerator : enumerator.IsEnumerator)
    (valued : (memberValue known next enumerator.focus
      (enumeratorCaptures bytes (enumerator :: rest) more)).Returns registry value registry)
    (kept : (keepName (enumerator.enumeratorName bytes)).Returns registry true between)
    (later : (readMembers (knownAfter known (enumerator.enumeratorName bytes) value)
      (value.number.getD next + 1) (given ++ [⟨enumerator.enumeratorName bytes, value.text⟩])
      (rest.map Cursor.focus) (enumeratorCaptures bytes rest more)).Returns between result after) :
    (readMembers known next given ((enumerator :: rest).map Cursor.focus)
      (enumeratorCaptures bytes (enumerator :: rest) more)).Returns registry result after := by
  obtain ⟨first, captured, bound⟩ := isEnumerator.capture_name bytes rest more
  rw [List.map_cons, readMembers_cons]
  refine (returns_capture_iff.mpr ⟨captured, rfl⟩).bind (valued.bind ?_)
  rw [bound]
  refine kept.bind ?_
  rw [if_pos rfl, enumeratorCaptures, isEnumerator.drop_captures]
  exact later

/-- The names that are known and those that enumerators are yet to take are different, and no macro has
one of them. -/
structure Apart (bytes : List UInt8) (registry : Registry) (known : List (String × Int))
    (nodes : List Cursor) : Prop where
  distinct : ((boundKnown known).map (·.1) ++ nodes.map (Cursor.enumeratorName bytes)).Nodup
  noMacro : ∀ name ∈ (boundKnown known).map (·.1) ++ nodes.map (Cursor.enumeratorName bytes),
    registry.constant? name = none

theorem Apart.known_nodup (apart : Apart bytes registry known nodes) :
    ((boundKnown known).map (·.1)).Nodup :=
  apart.distinct.of_append_left

/-- The name of the first enumerator moves to what is known. -/
theorem Apart.step {spelled : String} {number : Int}
    (apart : Apart bytes registry known (enumerator :: rest))
    (isName : enumerator.enumeratorName bytes = bindingName spelled) (name : String) :
    Apart bytes (registry.reserve .constants name) ((spelled, number) :: known) rest := by
  have moved : ((boundKnown ((spelled, number) :: known)).map (·.1)
        ++ rest.map (Cursor.enumeratorName bytes)).Perm
      ((boundKnown known).map (·.1) ++ (enumerator :: rest).map (Cursor.enumeratorName bytes)) := by
    rw [List.map_cons, isName]
    exact List.perm_middle.symm
  exact ⟨moved.nodup_iff.mpr apart.distinct,
    fun other member => apart.noMacro other (moved.mem_iff.mp member)⟩

/-- Enumerators become members that stand for numbers. -/
def ReadsAs (bytes : List UInt8) (registry : Registry) (known : List (String × Int)) (next : Int)
    (given : List Enumerator) (more : List Capture) (nodes : List Cursor) (numbers : List Int) : Prop :=
  ∃ members after, (readMembers (boundKnown known) next given (nodes.map Cursor.focus)
      (enumeratorCaptures bytes nodes more)).Returns registry (given ++ members) after ∧
    members.map (·.name) = nodes.map (Cursor.enumeratorName bytes) ∧
    evaluate (boundKnown known) members = some numbers

/-- An enumerator whose value is found with a text that stands for its number goes in front of the
others. -/
theorem ReadsAs.cons {numbers : List Int} {spelled text : String} (isEnumerator : enumerator.IsEnumerator)
    (isName : enumerator.enumeratorName bytes = bindingName spelled)
    (valued : (memberValue (boundKnown known) next enumerator.focus
      (enumeratorCaptures bytes (enumerator :: rest) more)).Returns registry
        ⟨text, some number⟩ registry)
    (stands : (readInteger 0 text.toList).or ((boundKnown known).lookup text) = some number)
    (kept : (keepName (enumerator.enumeratorName bytes)).Returns registry true between)
    (later : ReadsAs bytes between ((spelled, number) :: known) (number + 1)
      (given ++ [⟨enumerator.enumeratorName bytes, text⟩]) more rest numbers) :
    ReadsAs bytes registry known next given more (enumerator :: rest) (number :: numbers) := by
  have knows : boundKnown ((spelled, number) :: known)
      = knownAfter (boundKnown known) (enumerator.enumeratorName bytes) ⟨text, some number⟩ := by
    rw [isName]
    rfl
  obtain ⟨members, after, read, names, evaluates⟩ := later
  rw [knows] at read evaluates
  refine ⟨⟨enumerator.enumeratorName bytes, text⟩ :: members, after, ?_, ?_, ?_⟩
  · rw [List.append_cons]
    exact returns_readMembers_kept isEnumerator valued kept read
  · rw [List.map_cons, List.map_cons, names]
  · exact evaluate_cons stands evaluates

/-- Enumerators that C numbers, under names that are there, free and different, become members in order that
stand for C's numbers. The induction is on the numbering; what is known is what C knows, under bound
names. -/
theorem returns_readMembers_numbered {numbers : List Int}
    (numbered : Numbered bytes known next nodes numbers)
    (areEnumerators : ∀ enumerator ∈ nodes, enumerator.IsEnumerator)
    (faithful : ∀ enumerator ∈ nodes, ∀ value ∈ enumerator.named.drop 1, Faithful bytes value)
    (small : ∀ number ∈ numbers, number.natAbs < 10 ^ decimalLimit)
    (fresh : FreshConstants registry (nodes.map (Cursor.enumeratorName bytes)))
    (apart : Apart bytes registry known nodes) :
    ReadsAs bytes registry known next given more nodes numbers := by
  induction numbered generalizing given registry with
  | nil => exact ⟨[], registry, by simp [readMembers], rfl, rfl⟩
  | @counted known next enumerator name rest numbers inOrder _ ih =>
      rw [List.forall_mem_cons] at areEnumerators faithful small
      obtain ⟨kept, freshLater⟩ := fresh.tail
      have isName : enumerator.enumeratorName bytes = bindingName (name.textIn bytes) := by
        simp [Cursor.enumeratorName, inOrder]
      have noValue : enumerator.focus.hasValue = false := by
        simpa [inOrder] using areEnumerators.1.length_named
      obtain ⟨written, read⟩ := returns_decimal_of_small small.1 registry
      have valued : (memberValue (boundKnown known) next enumerator.focus
          (enumeratorCaptures bytes (enumerator :: rest) more)).Returns registry
          ⟨toString next, some next⟩ registry := by
        rw [memberValue, noValue, if_neg (by decide)]
        exact written.bind (returns_pure_iff.mpr ⟨rfl, rfl⟩)
      exact .cons areEnumerators.1 isName valued (by rw [read, Option.some_or]) kept
        (ih areEnumerators.2 faithful.2 small.2 freshLater (apart.step isName _))
  | @given known next number enumerator name value rest numbers inOrder explicit _ ih =>
      rw [List.forall_mem_cons] at areEnumerators faithful small
      obtain ⟨kept, freshLater⟩ := fresh.tail
      have isName : enumerator.enumeratorName bytes = bindingName (name.textIn bytes) := by
        simp [Cursor.enumeratorName, inOrder]
      have hasValue : enumerator.focus.hasValue = true := by
        simpa [inOrder] using areEnumerators.1.length_named
      obtain ⟨text, explicitRead, stands⟩ := returns_explicitValue explicit
        (faithful.1 value (by simp [inOrder])) small.1 apart.known_nodup
        fun name member => apart.noMacro name (List.mem_append_left _ member)
      have valued : (memberValue (boundKnown known) next enumerator.focus
          (enumeratorCaptures bytes (enumerator :: rest) more)).Returns registry
          ⟨text, some number⟩ registry := by
        rw [memberValue, if_pos hasValue]
        refine (returns_capture_iff.mpr ⟨?_, rfl⟩).bind explicitRead
        simp [enumeratorCaptures, inOrder]
      exact .cons areEnumerators.1 isName valued stands kept
        (ih areEnumerators.2 faithful.2 small.2 freshLater (apart.step isName _))

end

/-! ### The members of a claimed enumeration -/

/-- How a claimed enumeration is named: by its tag; without tag, by a name that is made up for it,
unless it is directly under a type definition; or by the type definition around it. The name that is
made up may have to be remembered. -/
inductive EnumerationName (bytes : List UInt8) (registry : Registry) :
    Action → Cursor → Cursor → String → Registry → Prop where
  | tag {specifier tag : Cursor} (tagged : specifier.ofKinds ["type_identifier"] = [tag]) :
      EnumerationName bytes registry .declareEnumeration specifier specifier
        (bindingName (tag.textIn bytes)) registry
  | madeUp {specifier : Cursor} {name : String} {noted : Registry}
      (untagged : specifier.ofKinds ["type_identifier"] = [])
      (onItsOwn : specifier.underTypedef = false)
      (made : (name, noted) = registry.uniqueName .enumerations "AnonEnum" (some specifier.spanKey)) :
      EnumerationName bytes registry .declareEnumeration specifier specifier name noted
  | definition {definition specifier name : Cursor}
      (body : definition.ofKinds ["enum_specifier"] = [specifier])
      (defined : definition.ofKinds ["type_identifier"] = [name]) :
      EnumerationName bytes registry .declareTypedefEnumeration definition specifier
        (bindingName (name.textIn bytes)) registry

namespace EnumerationName

variable {before after : Registry} {action : Action} {cursor specifier : Cursor} {name : String}

/-- Making up a name declares nothing. -/
theorem frame (site : EnumerationName bytes registry action cursor specifier name before) :
    before.emitted = registry.emitted ∧ before.currentHeader = registry.currentHeader ∧
      Registry.Steps registry before := by
  cases site with
  | tag _ => exact ⟨rfl, rfl, .refl⟩
  | madeUp _ _ made =>
      exact ⟨Registry.emitted_uniqueName made, by rw [Registry.uniqueName_frame made],
        steps_uniqueName made⟩
  | definition _ _ => exact ⟨rfl, rfl, .refl⟩

section

variable {alphabet : Alphabet} {enclosing : Option Pattern}

/-- A tagged enumeration is declared under its tag, with the captures behind it. -/
theorem returns_declareEnumeration_of_tag {tag : Cursor}
    (found : Rules.enumerationPattern.Finds alphabet enclosing specifier)
    (tagged : specifier.ofKinds ["type_identifier"] = [tag]) :
    (declareEnumeration specifier (specifier.capturesAfter bytes []).reverse).Returns registry () after ↔
      (emitEnumeration (bindingName (tag.textIn bytes)) specifier.focus
        (enumeratorCaptures bytes specifier.enumeratorNodes [])).Returns registry () after := by
  rw [Rules.captures_of_enumeration found, (Rules.leaves_of_enumeration found).1, tagged, List.map_append,
    declareEnumeration_eq, declareSpecifier_of_tag (Cursor.hasName_of_tagged tagged) rfl,
    enumeratorCaptures, List.append_nil]
  rfl

/-- An enumeration on its own without tag is declared under a name that is made up, with all captures. -/
theorem returns_declareEnumeration_of_untagged
    (found : Rules.enumerationPattern.Finds alphabet enclosing specifier)
    (untagged : specifier.ofKinds ["type_identifier"] = []) (onItsOwn : specifier.underTypedef = false)
    (made : (name, before) = registry.uniqueName .enumerations "AnonEnum" (some specifier.spanKey)) :
    (declareEnumeration specifier (specifier.capturesAfter bytes []).reverse).Returns registry () after ↔
      (emitEnumeration name specifier.focus
        (enumeratorCaptures bytes specifier.enumeratorNodes [])).Returns before () after := by
  rw [Rules.captures_of_enumeration found, (Rules.leaves_of_enumeration found).1, untagged, List.nil_append,
    declareEnumeration_eq, enumeratorCaptures, List.append_nil]
  exact returns_declareSpecifier_of_untagged (Cursor.hasName_of_untagged untagged) onItsOwn made

/-- A type definition around an enumeration declares it under the defined name, with the captures behind a
tag. -/
theorem declareTypedefEnumeration_eq (bytes : List UInt8) {definition last : Cursor}
    (finds : (Rules.typedefAround Rules.enumerationPattern).Finds alphabet enclosing definition)
    (body : definition.ofKinds ["enum_specifier"] = [specifier])
    (defined : definition.ofKinds ["type_identifier"] = [last]) :
    (∃ around, Rules.enumerationPattern.Finds alphabet around specifier) ∧
      declareTypedefEnumeration definition (definition.capturesAfter bytes []).reverse
        = emitEnumeration (bindingName (last.textIn bytes)) specifier.focus
          (enumeratorCaptures bytes specifier.enumeratorNodes [last.leaf bytes]) := by
  obtain ⟨inside, name, isBody, isName, _, captured, around, found⟩ :=
    Rules.captures_of_definedEnumeration bytes finds
  obtain rfl : inside = specifier := List.singleton_inj.mp (isBody.symm.trans body)
  obtain rfl : name = last := List.singleton_inj.mp (isName.symm.trans defined)
  have spelled : definition.focus.namedOfKind? ["enum_specifier"] = some inside.focus := by
    rw [Cursor.namedOfKind?_eq, body]
    rfl
  have ends : (definition.capturesAfter bytes []).reverse.getLast? = some (name.leaf bytes) := by
    rw [captured]
    simp
  refine ⟨⟨_, found⟩, ?_⟩
  rw [declareTypedefEnumeration, spelled, ends]
  dsimp only
  rw [captured, Rules.drop_tag_of_enumeration bytes found [name]]
  rfl

/-- The specifier of a claimed enumeration is found, and its action declares it under its name, with the
captures between a tag and the name of a type definition. -/
theorem returns_run_iff (site : EnumerationName bytes registry action cursor specifier name before)
    (finds : ∀ pattern, (pattern, action) ∈ Rules.shapeList → pattern.Finds alphabet none cursor) :
    (∃ around, Rules.enumerationPattern.Finds alphabet around specifier) ∧
      ∃ more, ∀ after, (action.run (some cursor) (cursor.capturesAfter bytes []).reverse).Returns
          registry () after ↔
        (emitEnumeration name specifier.focus
          (enumeratorCaptures bytes specifier.enumeratorNodes more)).Returns before () after := by
  cases site with
  | tag tagged =>
      have found := finds Rules.enumerationPattern (by decide)
      exact ⟨⟨_, found⟩, [], fun _ => returns_declareEnumeration_of_tag found tagged⟩
  | madeUp untagged onItsOwn made =>
      have found := finds Rules.enumerationPattern (by decide)
      exact ⟨⟨_, found⟩, [],
        fun _ => returns_declareEnumeration_of_untagged found untagged onItsOwn made⟩
  | @definition _ specifier last body defined =>
      have found := finds (Rules.typedefAround Rules.enumerationPattern) (by decide)
      obtain ⟨specifierFound, declares⟩ := declareTypedefEnumeration_eq bytes found body defined
      refine ⟨specifierFound, [last.leaf bytes], fun after => ?_⟩
      rw [← declares]
      exact Iff.rfl

end

end EnumerationName

namespace Rules

/-- Of an enumeration and its members, only the enumeration is emitted. -/
theorem emitted_of_readMembers {known : List (String × Int)} {given members : List Enumerator}
    {trees : List Tree} {captures : List Capture} {name : String} {before between : Registry}
    {declaration : Declaration}
    (read : (readMembers known next given trees captures).Returns (before.reserve .enumerations name)
      members between) :
    (between.emit .enumerations declaration).emitted
      = before.emitted.modify .enumerations (· ++ [declaration]) := by
  obtain ⟨_, _, _, left⟩ := keepsMembers_readMembers read
  rw [left, Registry.reserveAll_eq]
  rfl

/-- The numbering of an enumeration follows C: offering it to the default grammar, under a name that is new
and with enumerators whose names are there, new and different, adds exactly one enumeration, with one member
for each enumerator in document order; and the members stand for the numbers that C gives the enumerators, if
the texts of their values say in a module what they say in C. -/
theorem dispatch_numbers_enumeration {cursor specifier : Cursor} {action : Action} {name : String}
    {before : Registry} {numbers : List Int} (consistent : registry.Consistent)
    (claimed : Claims cursor action)
    (site : EnumerationName bytes registry action cursor specifier name before)
    (named : name ≠ "") (new : before.isDeclared .enumerations name = false)
    (fresh : FreshConstants before (specifier.enumeratorNodes.map (Cursor.enumeratorName bytes)))
    (numbered : Numbered bytes [] 0 specifier.enumeratorNodes numbers)
    (small : ∀ number ∈ numbers, number.natAbs < 10 ^ decimalLimit)
    (faithful : ∀ enumerator ∈ specifier.enumeratorNodes, ∀ value ∈ enumerator.named.drop 1,
      Faithful bytes value) :
    ∃ captures after members, (table.dispatch alphabet bytes Generation.runDefault cursor).Returns
        registry (some captures) after ∧
      after.emitted = registry.emitted.modify .enumerations
        (· ++ [.enumeration ⟨name, registry.currentHeader, members⟩]) ∧
      members.map (·.name) = specifier.enumeratorNodes.map (Cursor.enumeratorName bytes) ∧
      evaluate [] members = some numbers := by
  obtain ⟨emitted, header, steps⟩ := site.frame
  obtain ⟨⟨_, found⟩, more, returns_iff⟩ := site.returns_run_iff fun _ => finds_of_claims claimed
  obtain ⟨_, _, areEnumerators, trees⟩ := leaves_of_enumeration found
  have apart : Apart bytes (before.reserve .enumerations name) [] specifier.enumeratorNodes :=
    ⟨fresh.distinct, fun enumerator member =>
      (consistent.of_steps steps).constant?_eq_none (fresh.free enumerator member)⟩
  have freshLater : FreshConstants (before.reserve .enumerations name)
      (specifier.enumeratorNodes.map (Cursor.enumeratorName bytes)) :=
    ⟨fresh.named, fresh.free, fresh.distinct⟩
  have reads : ReadsAs bytes (before.reserve .enumerations name) [] 0 [] more specifier.enumeratorNodes
      numbers := returns_readMembers_numbered numbered areEnumerators faithful small freshLater apart
  obtain ⟨members, between, read, names, evaluates⟩ := reads
  rw [List.nil_append] at read
  rw [← trees] at read
  have emits : (emitEnumeration name specifier.focus
      (enumeratorCaptures bytes specifier.enumeratorNodes more)).Returns before () _ :=
    returns_emitEnumeration_iff.mpr (Or.inr ⟨named, new, members, between, read, rfl⟩)
  obtain ⟨captures, returns⟩ := returns_dispatch_of_run claimed ((returns_iff _).mpr emits)
  refine ⟨captures, _, members, returns, ?_, names, evaluates⟩
  rw [emitted_of_readMembers read, emitted, header]

/-! ### An enumeration with values of every kind -/

/-- The enumeration `enum E { A, B = 0x10, C, D = 'A', F = B, G = -5, H };`. -/
def everyValue : Document where
  bytes := "enum E \x7b A, B = 0x10, C, D = 'A', F = B, G = -5, H \x7d;".toUTF8.toList
  tree := .node ⟨"enum_specifier", 0, 52, none⟩ [
    .node ⟨"type_identifier", 5, 6, some "name"⟩ [],
    .node ⟨"enumerator_list", 7, 52, some "body"⟩ [
      .node ⟨"enumerator", 9, 10, none⟩ [
        .node ⟨"identifier", 9, 10, some "name"⟩ []],
      .node ⟨"enumerator", 12, 20, none⟩ [
        .node ⟨"identifier", 12, 13, some "name"⟩ [],
        .node ⟨"number_literal", 16, 20, some "value"⟩ []],
      .node ⟨"enumerator", 22, 23, none⟩ [
        .node ⟨"identifier", 22, 23, some "name"⟩ []],
      .node ⟨"enumerator", 25, 32, none⟩ [
        .node ⟨"identifier", 25, 26, some "name"⟩ [],
        .node ⟨"char_literal", 29, 32, some "value"⟩ [
          .node ⟨"character", 30, 31, none⟩ []]],
      .node ⟨"enumerator", 34, 39, none⟩ [
        .node ⟨"identifier", 34, 35, some "name"⟩ [],
        .node ⟨"identifier", 38, 39, some "value"⟩ []],
      .node ⟨"enumerator", 41, 47, none⟩ [
        .node ⟨"identifier", 41, 42, some "name"⟩ [],
        .node ⟨"unary_expression", 45, 47, some "value"⟩ [
          .node ⟨"number_literal", 46, 47, some "argument"⟩ []]],
      .node ⟨"enumerator", 49, 50, none⟩ [
        .node ⟨"identifier", 49, 50, some "name"⟩ []]]]
  hasError := false

/-- The literal `0x10`. -/
def hexadecimalSixteen : IntegerLiteral where
  sign := .absent
  base := .hexadecimal false
  digits := ['1', '0']
  nonempty := by decide
  inBase := by decide
  noLeadingZero := by simp

theorem numbered_everyValue : Numbered everyValue.bytes [] 0
    (Cursor.root everyValue.tree).enumeratorNodes [0, 16, 17, 65, 16, -5, -4] := by
  apply Numbered.counted rfl
  apply Numbered.given rfl
  · exact .of_text hexadecimalSixteen [] (by decide) (by decide)
      IntegerLiteral.isSuffix_nil (by decide +kernel) (by decide)
  apply Numbered.counted rfl
  apply Numbered.given rfl
  · exact .of_code ([], 128) (by decide) (by decide)
      (Or.inl (.itself (c := 'A') (by decide) (by decide) (by decide))) rfl (by decide +kernel) rfl
  apply Numbered.given rfl
  · exact .name rfl (by decide +kernel) (by decide +kernel)
  apply Numbered.given rfl
  · exact .of_text (decimalLiteral (-5)) [] (by decide) (by decide)
      IntegerLiteral.isSuffix_nil (by decide +kernel) (value_decimalLiteral _)
  apply Numbered.counted rfl
  exact .nil

theorem faithful_everyValue : ∀ enumerator ∈ (Cursor.root everyValue.tree).enumeratorNodes,
    ∀ value ∈ enumerator.named.drop 1, Faithful everyValue.bytes value := by
  intro enumerator isEnumerator value isValue
  have plain : (value.kind = "char_literal" ∧ Document.textOf everyValue.bytes value = "'A'" ∧
        value.textIn everyValue.bytes = "'A'") ∨
      (value.kind = "identifier" ∧
        readInteger 0 (bindingName (value.textIn everyValue.bytes)).toList = none) ∨
      value.kind ≠ "identifier" ∧ value.kind ≠ "char_literal" := by
    have all : ∀ enumerator ∈ (Cursor.root everyValue.tree).enumeratorNodes,
        ∀ value ∈ enumerator.named.drop 1,
          (value.kind = "char_literal" ∧ Document.textOf everyValue.bytes value = "'A'" ∧
            value.textIn everyValue.bytes = "'A'") ∨
          (value.kind = "identifier" ∧
            readInteger 0 (bindingName (value.textIn everyValue.bytes)).toList = none) ∨
          value.kind ≠ "identifier" ∧ value.kind ≠ "char_literal" := by decide +kernel
    exact all enumerator isEnumerator value isValue
  rcases plain with ⟨isConstant, spelled, kept⟩ | ⟨isName, noNumber⟩ | ⟨noName, noConstant⟩
  · exact .of_code ([], 128) (by decide)
      (.itself (c := 'A') (by decide) (by decide) (by decide)) isConstant spelled (kept.trans spelled.symm)
  · exact .of_name isName noNumber
  · exact .of_kind noName noConstant

/-- Every kind of value is counted as C counts it. -/
theorem dispatch_numbers_enumeration_everyValue :
    let specifier := Cursor.root everyValue.tree
    Claims specifier .declareEnumeration ∧
      ∃ captures after members, (table.dispatch alphabet everyValue.bytes Generation.runDefault
          specifier).Returns .empty (some captures) after ∧
        after.emitted.enumerations = [.enumeration ⟨"E", "", members⟩] ∧
        members.map (·.name) = ["A", "B", "C", "D", "F", "G", "H"] ∧
        evaluate [] members = some [0, 16, 17, 65, 16, -5, -4] := by
  intro specifier
  have claimed : Claims specifier .declareEnumeration := by decide +kernel
  have site :
      EnumerationName everyValue.bytes .empty .declareEnumeration specifier specifier "E" .empty := by
    let tag : Cursor := ⟨.node ⟨"type_identifier", 5, 6, some "name"⟩ [], [⟨everyValue.tree, 0⟩]⟩
    have bound : bindingName (tag.textIn everyValue.bytes) = "E" := by decide +kernel
    rw [← bound]
    exact .tag rfl
  have names : specifier.enumeratorNodes.map (Cursor.enumeratorName everyValue.bytes)
      = ["A", "B", "C", "D", "F", "G", "H"] := by decide +kernel
  have fresh : FreshConstants .empty
      (specifier.enumeratorNodes.map (Cursor.enumeratorName everyValue.bytes)) := by
    rw [names]
    exact ⟨by decide, by decide, by decide⟩
  have small : ∀ number ∈ [(0 : Int), 16, 17, 65, 16, -5, -4], number.natAbs < 10 ^ decimalLimit := by
    have below : ∀ number ∈ [(0 : Int), 16, 17, 65, 16, -5, -4], number.natAbs < 10 ^ 2 := by decide
    intro number member
    exact Nat.lt_of_lt_of_le (below number member) (Nat.pow_le_pow_right (by decide) (by decide))
  obtain ⟨captures, after, members, returns, emitted, bound, evaluates⟩ :=
    dispatch_numbers_enumeration Registry.consistent_empty claimed site (by decide) rfl fresh
      numbered_everyValue small faithful_everyValue
  refine ⟨claimed, captures, after, members, returns, ?_, bound.trans names, evaluates⟩
  rw [emitted]
  rfl

/-! ### Values that are misread

A name that is bound as a number, a character constant with a tab, and one with a universal character
name. -/

/-- The enumeration `enum E { _5 = 7, B = _5, C = 5, T = '', U = U'\u00e9' };`, with a tab between the two
apostrophes. -/
def misreadValues : Document where
  bytes := "enum E \x7b _5 = 7, B = _5, C = 5, T = '\t', U = U'\\u00e9' \x7d;".toUTF8.toList
  tree := .node ⟨"enum_specifier", 0, 56, none⟩ [
    .node ⟨"type_identifier", 5, 6, some "name"⟩ [],
    .node ⟨"enumerator_list", 7, 56, some "body"⟩ [
      .node ⟨"enumerator", 9, 15, none⟩ [
        .node ⟨"identifier", 9, 11, some "name"⟩ [],
        .node ⟨"number_literal", 14, 15, some "value"⟩ []],
      .node ⟨"enumerator", 17, 23, none⟩ [
        .node ⟨"identifier", 17, 18, some "name"⟩ [],
        .node ⟨"identifier", 21, 23, some "value"⟩ []],
      .node ⟨"enumerator", 25, 30, none⟩ [
        .node ⟨"identifier", 25, 26, some "name"⟩ [],
        .node ⟨"number_literal", 29, 30, some "value"⟩ []],
      .node ⟨"enumerator", 32, 39, none⟩ [
        .node ⟨"identifier", 32, 33, some "name"⟩ [],
        .node ⟨"char_literal", 36, 39, some "value"⟩ [
          .node ⟨"character", 37, 38, none⟩ []]],
      .node ⟨"enumerator", 41, 54, none⟩ [
        .node ⟨"identifier", 41, 42, some "name"⟩ [],
        .node ⟨"char_literal", 45, 54, some "value"⟩ [
          .node ⟨"escape_sequence", 47, 53, none⟩ []]]]]
  hasError := false

/-- The registry after the misread values. -/
def afterMisreadValues : Registry :=
  { Registry.empty with
    declared := ⟨["5", "B", "C", "T", "U"], [], ["E"], []⟩
    emitted := ⟨[], [],
      [.enumeration ⟨"E", "", [⟨"5", "7"⟩, ⟨"B", "5"⟩, ⟨"C", "5"⟩, ⟨"T", "32"⟩,
      ⟨"U", "117"⟩]⟩], []⟩ }

theorem numbered_misreadValues : Numbered misreadValues.bytes [] 0
    (Cursor.root misreadValues.tree).enumeratorNodes [7, 7, 5, 9, 233] := by
  apply Numbered.given rfl
  · exact .of_text (decimalLiteral 7) [] (by decide) (by decide)
      IntegerLiteral.isSuffix_nil (by decide +kernel) (value_decimalLiteral _)
  apply Numbered.given rfl
  · exact .name rfl (by decide +kernel) (by decide +kernel)
  apply Numbered.given rfl
  · exact .of_text (decimalLiteral 5) [] (by decide) (by decide)
      IntegerLiteral.isSuffix_nil (by decide +kernel) (value_decimalLiteral _)
  apply Numbered.given rfl
  · exact .of_code ([], 128) (by decide) (by decide)
      (Or.inl (.itself (c := '\t') (by decide) (by decide) (by decide))) rfl (by decide +kernel) rfl
  apply Numbered.given rfl
  · exact .of_code (['U'], 4294967296) (by decide) (by decide)
      (Or.inr universalName_eAcute) rfl (by decide +kernel) rfl
  exact .nil

/-- The members of the misread values do not stand for the numbers that C gives the enumerators. -/
theorem not_numbered_misreadValues :
    let specifier := Cursor.root misreadValues.tree
    Claims specifier .declareEnumeration ∧
      EnumerationName misreadValues.bytes .empty .declareEnumeration specifier specifier "E" .empty ∧
      FreshConstants .empty (specifier.enumeratorNodes.map (Cursor.enumeratorName misreadValues.bytes)) ∧
      Numbered misreadValues.bytes [] 0 specifier.enumeratorNodes [7, 7, 5, 9, 233] ∧
      ∃ captures members, (table.dispatch alphabet misreadValues.bytes Generation.runDefault
          specifier).Returns .empty (some captures) afterMisreadValues ∧
        .enumeration ⟨"E", "", members⟩ ∈ afterMisreadValues.emitted.enumerations ∧
        evaluate [] members = some [7, 5, 5, 32, 117] := by
  intro specifier
  have site : EnumerationName misreadValues.bytes .empty .declareEnumeration specifier specifier "E"
      .empty := by
    let tag : Cursor :=
      ⟨.node ⟨"type_identifier", 5, 6, some "name"⟩ [], [⟨misreadValues.tree, 0⟩]⟩
    have bound : bindingName (tag.textIn misreadValues.bytes) = "E" := by decide +kernel
    rw [← bound]
    exact .tag rfl
  have names : specifier.enumeratorNodes.map (Cursor.enumeratorName misreadValues.bytes)
      = ["5", "B", "C", "T", "U"] := by decide +kernel
  refine ⟨by decide +kernel, site, ?_, numbered_misreadValues,
    (specifier.capturesAfter misreadValues.bytes []).reverse, _, ?_, List.mem_singleton_self _,
    by decide +kernel⟩
  · rw [names]
    exact ⟨by decide, by decide, by decide⟩
  · rw [table_eq, alphabet_eq]
    decide +kernel

end Rules

end HeaderBindings
