/-
Module: HeaderBindings.Proofs.BindableNames
Purpose: The bound name of a C identifier stands as the target of a statement in every module that it is
  emitted in, and is a name that can stand there exactly if the identifier has a letter before its digits.
Main exports: Spelling.Bindable, Spelling.LetterFirst, Module.Emitted, Module.StatementFor,
  Spelling.bindable_bindingName_iff
-/
import HeaderBindings.Proofs.FieldConstants
import HeaderBindings.Proofs.NameCharacters
import HeaderBindings.Proofs.PatternRoundTrip
import HeaderBindings.Proofs.TypeBlock
import HeaderBindings.Proofs.WrappedTexts

namespace HeaderBindings

open Pattern (isIdentifier isNameChar)
open Text

/-! ### Names that can be bound -/

namespace Spelling

/-- A name that an assignment or a class statement can bind: an identifier, and no keyword. -/
def Bindable (name : String) : Prop :=
  isIdentifier name.toList = true ∧ isKeyword name.toList = false

instance : DecidablePred Bindable := fun name =>
  inferInstanceAs (Decidable (isIdentifier name.toList = true ∧ isKeyword name.toList = false))

/-- The first character of a text that is no underscore is a letter. -/
def LetterFirst (text : String) : Prop :=
  ∃ c, text.toList.find? (· != '_') = some c ∧ c.isAlpha = true

section

variable {text : List Char} {c : Char}

/-- An identifier has a first character, which no digit is, and all its characters are letters, digits and
underscores. -/
theorem isIdentifier_iff : isIdentifier text = true ↔
    (∃ c, text.head? = some c ∧ isIdentifierStart c = true) ∧ ∀ c ∈ text, isNameChar c = true := by
  constructor
  · intro identifier
    refine ⟨?_, fun c member => Pattern.isNameChar_of_mem_identifier identifier member⟩
    cases text with
    | nil => cases identifier
    | cons first rest =>
        rw [isIdentifier, Bool.and_eq_true] at identifier
        exact ⟨first, rfl, identifier.1⟩
  · rintro ⟨⟨first, isFirst, starts⟩, letters⟩
    cases text with
    | nil => cases isFirst
    | cons other rest =>
        obtain rfl := Option.some.inj isFirst
        rw [isIdentifier, Bool.and_eq_true, List.all_eq_true]
        exact ⟨starts, (List.forall_mem_cons.mp letters).2⟩

/-- An identifier has no outer blanks. -/
theorem strip_identifier (identifier : isIdentifier text = true) : strip text = text :=
  strip_eq_self_of_solid fun _ member =>
    (Pattern.of_isNameChar (Pattern.isNameChar_of_mem_identifier identifier member)).1.2.2

/-- The characters of a bound name are underscores and characters of its text. -/
theorem isNameChar_of_mem_bindingChars (letters : ∀ c ∈ text, isNameChar c = true)
    (member : c ∈ bindingChars text) : isNameChar c = true := by
  by_cases underscore : c = '_'
  · rw [underscore]
    decide
  · exact letters c (mem_of_mem_strip ((mem_bindingChars_iff underscore).mp member))

theorem isIdentifier_bindingChars_iff (identifier : isIdentifier text = true) :
    isIdentifier (bindingChars text) = true ↔
      ∃ c, text.find? (· != '_') = some c ∧ c.isAlpha = true := by
  have letters := (isIdentifier_iff.mp identifier).2
  rw [isIdentifier_iff, head?_bindingChars, strip_identifier identifier]
  constructor
  · rintro ⟨⟨c, isFirst, starts⟩, _⟩
    have other : c ≠ '_' := by simpa using List.find?_some isFirst
    exact ⟨c, isFirst, by simpa [isIdentifierStart, other] using starts⟩
  · rintro ⟨c, isFirst, letter⟩
    refine ⟨⟨c, isFirst, ?_⟩, fun _ => isNameChar_of_mem_bindingChars letters⟩
    rw [isIdentifierStart, letter, Bool.true_or]

end

end Spelling

/-! ### The statements of a module -/

namespace Module

open Spelling

/-- A text begins a statement that binds a name: a class statement, or an assignment. -/
inductive StatementFor (target : String) : String → Prop where
  | classStatement (rest : String) : StatementFor target ("class " ++ target ++ "(" ++ rest)
  | assignment (rest : String) : StatementFor target (target ++ " = " ++ rest)

/-- The names that a registry emits into its module: those of declarations, those of the members of
enumerations, and those of types that are used but not declared. -/
inductive Emitted (registry : Registry) : String → Prop where
  | declaration {declaration : Declaration}
      (emitted : declaration ∈ registry.emitted.get declaration.category) :
      Emitted registry declaration.name
  | member {declaration : Declaration} {name : String}
      (emitted : declaration ∈ registry.emitted.get declaration.category)
      (isMember : name ∈ declaration.memberNames) : Emitted registry name
  | placeholder {name : String} (undeclared : name ∈ registry.undeclaredTypes) : Emitted registry name

theorem statementFor_classHead (name : String) (base : TypeExpr) :
    StatementFor name (Line.classHead name base).text := by
  rw [Line.text_classHead, String.append_assoc]
  exact .classStatement _

theorem statementFor_functionLine (function : Function) :
    StatementFor function.name (Line.functionLine function).text := by
  have opened : " = _bind(" = " = " ++ "_bind(" := rfl
  unfold Line.text
  dsimp only
  rw [opened]
  simp only [String.append_assoc]
  rw [← String.append_assoc]
  exact .assignment _

variable {registry : Registry} {name : String}

theorem BindsValue.statementFor {line : Line} (binds : BindsValue registry name line) :
    StatementFor name line.text := by
  cases binds with
  | constant _ isName =>
      rw [← isName]
      exact .assignment _
  | enumeration _ isName =>
      rw [← isName]
      exact statementFor_classHead _ _
  | member _ _ isName =>
      rw [← isName]
      exact .assignment _

theorem BindsValue.mem_layout {line : Line} (binds : BindsValue registry name line)
    (library : Option String) : line ∈ layout registry library := by
  obtain ⟨category, _, inBlock⟩ := binds.mem_blockLines
  exact (blockLines_within (List.ne_nil_of_mem inBlock) library).subset inBlock

/-- Lines that bind or use types are in the module if they are among those of the declarations. -/
theorem mem_layout_of_matters {line : Line} (library : Option String)
    (member : line ∈ enumerationHeads registry ++ classHeads registry
      ++ (plainAliases registry).map .aliasLine ++ recordFieldLines registry
      ++ (functions registry).map .functionLine) : line ∈ layout registry library := by
  rw [← filter_layout registry library] at member
  exact (List.mem_filter.mp member).1

theorem mem_layout_of_classHead {line : Line} (library : Option String)
    (member : line ∈ classHeads registry) : line ∈ layout registry library := by
  apply mem_layout_of_matters library
  simp [member]

/-- A declared type is bound by a class statement or by an assignment. -/
theorem statement_of_type {declaration : Declaration}
    (emitted : declaration ∈ registry.emitted.types) (isType : declaration.category = .types)
    (library : Option String) :
    ∃ line ∈ layout registry library, StatementFor declaration.name line.text := by
  have ofClass : ∀ {line : Line},
      classHead? declaration = some line → line ∈ layout registry library := by
    intro line isHead
    apply mem_layout_of_classHead library
    rw [classHeads_eq]
    exact List.mem_append_right _ (List.mem_filterMap.mpr ⟨declaration, emitted, isHead⟩)
  cases declaration with
  | record r => exact ⟨_, ofClass rfl, statementFor_classHead _ _⟩
  | typeAlias a =>
      cases isOpaque : a.isOpaque with
      | true =>
          have isHead : classHead? (.typeAlias a) = some (.classHead a.name a.target) := if_pos isOpaque
          exact ⟨_, ofClass isHead, statementFor_classHead _ _⟩
      | false =>
          have isAlias : a ∈ plainAliases registry := mem_plainAliases.mpr ⟨emitted, isOpaque⟩
          refine ⟨.aliasLine a, mem_layout_of_matters library ?_, .assignment _⟩
          simp [isAlias]
  | constant | enumeration | function => cases isType

/-- Every emitted name is the target of a statement of the module. -/
theorem Emitted.statement (emitted : Emitted registry name) (library : Option String) :
    ∃ line ∈ layout registry library, StatementFor name line.text := by
  have ofValue : ∀ {name : String}, (∃ line, BindsValue registry name line) →
      ∃ line ∈ layout registry library, StatementFor name line.text := by
    rintro name ⟨line, binds⟩
    exact ⟨line, binds.mem_layout library, binds.statementFor⟩
  cases emitted with
  | @declaration declaration inCategory =>
      cases declaration with
      | constant c =>
          exact ofValue ⟨_, .constant (List.mem_filterMap.mpr ⟨_, inCategory, rfl⟩) rfl⟩
      | enumeration e => exact ofValue ⟨_, .enumeration (mem_enumerations.mpr inCategory) rfl⟩
      | record | typeAlias => exact statement_of_type inCategory rfl library
      | function f =>
          have isFunction : f ∈ functions registry := List.mem_filterMap.mpr ⟨_, inCategory, rfl⟩
          refine ⟨.functionLine f, mem_layout_of_matters library ?_, statementFor_functionLine f⟩
          simp [isFunction]
  | @member declaration _ inCategory isMember =>
      cases declaration with
      | enumeration e =>
          obtain ⟨member, inside, rfl⟩ := List.mem_map.mp isMember
          exact ofValue ⟨_, .member (mem_enumerations.mpr inCategory) inside rfl⟩
      | constant | typeAlias | record | function => cases isMember
  | placeholder undeclared =>
      refine ⟨placeholderHead name, mem_layout_of_classHead library ?_, statementFor_classHead _ _⟩
      rw [classHeads_eq]
      exact List.mem_append_left _ (List.mem_map_of_mem undeclared)

end Module

/-! ### The bound name of an identifier -/

namespace Spelling

open HeaderBindings.Module

/-- The bound name of a C identifier is empty exactly if the identifier is made of underscores, and never a
keyword; it can be bound exactly if the first character of the identifier that is no underscore is a letter.
Wherever it is emitted as the name of a macro, a type, an enumeration, a member of one or a function, the
module has a class statement or an assignment for it. -/
theorem bindable_bindingName_iff {text : String} (identifier : isIdentifier text.toList = true) :
    (bindingName text = "" ↔ ∀ c ∈ text.toList, c = '_') ∧
    isKeyword (bindingName text).toList = false ∧
    (Bindable (bindingName text) ↔ LetterFirst text) ∧
    ∀ registry library, Emitted registry (bindingName text) →
      render registry library = textOf (layout registry library) ++ "\n" ∧
      ∃ line ∈ layout registry library, StatementFor (bindingName text) line.text := by
  have characters : (bindingName text).toList = bindingChars text.toList := String.toList_ofList
  have notKeyword : isKeyword (bindingName text).toList = false := by
    rw [characters]
    exact isKeyword_bindingChars _
  refine ⟨?_, notKeyword, ?_, ?_⟩
  · rw [← String.toList_eq_nil_iff, characters, bindingChars_eq_nil_iff, strip_identifier identifier]
  · rw [LetterFirst, ← isIdentifier_bindingChars_iff identifier, ← characters]
    exact and_iff_left notKeyword
  · intro registry library emitted
    exact ⟨render_eq registry library, emitted.statement library⟩

/-- The registry that macros with the value one leave. -/
def macrosNamed (names : List String) : Registry :=
  ⟨"m.h", ["m.h"], ⟨names, [], [], []⟩,
    ⟨names.map fun name => .constant ⟨name, "1", "m.h"⟩, [], [], []⟩, [], []⟩

theorem emitted_macrosNamed {names : List String} {name : String} (member : name ∈ names) :
    Emitted (macrosNamed names) name := by
  let declaration : Declaration := .constant ⟨name, "1", "m.h"⟩
  have emitted : declaration ∈ (macrosNamed names).emitted.get declaration.category :=
    List.mem_map.mpr ⟨name, member, rfl⟩
  exact .declaration emitted

/-- Between its underscores the identifier is a keyword, so its bound name ends with one. -/
theorem bindable_bindingName_iff_keywordInside :
    isIdentifier "__class_".toList = true ∧ Bindable (bindingName "__class_") ∧
    bindingName "__class_" = "class_" ∧
    ∃ line ∈ layout (macrosNamed ["class_"]) none, StatementFor "class_" line.text := by
  have identifier : isIdentifier "__class_".toList = true := by decide
  have bound : bindingName "__class_" = "class_" := by decide
  obtain ⟨_, _, bindable_iff, statements⟩ := bindable_bindingName_iff identifier
  rw [bound] at statements
  exact ⟨identifier, bindable_iff.mpr ⟨'c', by decide, by decide⟩, bound,
    (statements _ none (emitted_macrosNamed (by simp))).2⟩

/-- An identifier with digits right after its underscores is bound under a number, to which nothing can be
assigned. -/
theorem not_bindable_digitsAfterUnderscore :
    isIdentifier "_1".toList = true ∧ ¬ (∀ c ∈ "_1".toList, c = '_') ∧
    bindingName "_1" = "1" ∧ ¬ Bindable (bindingName "_1") ∧
    ∃ line ∈ layout (macrosNamed [bindingName "_1"]) none, line.text = "1 = 1" := by
  have otherCharacter : ¬ ∀ c ∈ "_1".toList, c = '_' :=
    fun all => absurd (all '1' (by decide)) (by decide)
  refine ⟨by decide, otherCharacter, by decide, by decide, .plain "1 = 1", ?_, rfl⟩
  have isMacro : ⟨"1", "1", "m.h"⟩ ∈ constants (macrosNamed [bindingName "_1"]) := by decide
  exact (BindsValue.constant isMacro rfl).mem_layout none

end Spelling

end HeaderBindings
