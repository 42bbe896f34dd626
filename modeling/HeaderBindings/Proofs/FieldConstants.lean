/-
Module: HeaderBindings.Proofs.FieldConstants
Purpose: The identifiers that stand in the lengths of arrays and the widths of bit fields, and when the
  module binds them before the fields.
Main exports: identifiers, Field.constants, Capture.constants, Module.BindsValue,
  Session.Generated.field_constant_bound_iff
-/
import Mathlib.Data.List.TakeWhile
import HeaderBindings.Proofs.EmittedDeclarations

namespace HeaderBindings

open Run Spelling Text

/-! ### Identifiers in a text -/

/-- The identifiers in a text: the longest runs of word characters that do not begin with a digit. -/
def identifiers (text : String) : List String :=
  ((words (text.toList.map fun c => if isWord c then c else ' ')).filter
    fun word => word.head?.any fun c => !isDecimal c).map String.ofList

theorem ne_empty_of_mem_identifiers {name text : String} (member : name ∈ identifiers text) :
    name ≠ "" := by
  obtain ⟨word, isWord_, rfl⟩ := List.mem_map.mp member
  have begins := (List.mem_filter.mp isWord_).2
  intro empty
  rw [String.ofList_eq_empty_iff.mp empty] at begins
  cases begins

/-- No word goes over a blank. -/
theorem wordsFrom_append_blank {blank : Char} (isBlank_ : isBlank blank = true)
    (current front back : List Char) :
    wordsFrom current (front ++ blank :: back) = wordsFrom current front ++ wordsFrom [] back := by
  induction front generalizing current with
  | nil =>
      cases current <;> simp [wordsFrom, isBlank_]
  | cons c rest ih =>
      rw [List.cons_append, wordsFrom, wordsFrom]
      split
      · split
        · exact ih []
        · rw [ih [], List.cons_append]
      · exact ih (c :: current)

theorem identifiers_append_times (first second : String) :
    identifiers (first ++ " * " ++ second) = identifiers first ++ identifiers second := by
  have times : " * ".toList.map (fun c => if isWord c then c else ' ') = [' ', ' ', ' '] := by decide
  unfold identifiers words
  rw [String.toList_append, String.toList_append, List.map_append, List.map_append, times,
    List.append_assoc, List.cons_append, wordsFrom_append_blank (by decide)]
  simp [wordsFrom, isBlank]

theorem mem_identifiers_of_intercalate {name : String} {texts : List String}
    (member : name ∈ identifiers (String.intercalate " * " texts)) :
    ∃ text ∈ texts, name ∈ identifiers text := by
  induction texts with
  | nil => exact absurd member (by simp [identifiers, words, wordsFrom])
  | cons first rest ih =>
      cases rest with
      | nil => exact ⟨first, by simp, by simpa using member⟩
      | cons second others =>
          rw [String.intercalate_cons_cons, identifiers_append_times, List.mem_append] at member
          rcases member with here | later
          · exact ⟨first, List.mem_cons_self, here⟩
          · obtain ⟨text, isText, inside⟩ := ih later
            exact ⟨text, List.mem_cons_of_mem _ isText, inside⟩

/-! ### The constants of a field -/

/-- The identifiers in the lengths and in the width of a field. -/
def Field.constants (field : Field) : List String :=
  (field.length.toList ++ field.bits.toList).flatMap identifiers

theorem ne_empty_of_mem_constants {field : Field} {name : String} (used : name ∈ field.constants) :
    name ≠ "" := by
  obtain ⟨text, _, member⟩ := List.mem_flatMap.mp used
  exact ne_empty_of_mem_identifiers member

/-- The identifiers that a captured length or width leaves in a module. A length that is an identifier gets
the name under which identifiers are bound; in a width, identifiers stay as they are. -/
def Capture.constants (capture : Capture) : List String :=
  if capture.isArrayLength then identifiers capture.arrayLength
  else if capture.isBitWidth then identifiers capture.bitWidth
  else []

theorem Capture.constants_of_width {capture : Capture} (isWidth : capture.isBitWidth = true) :
    capture.constants = identifiers capture.bitWidth := by
  have other : capture.isArrayLength = false := by
    have kind : capture.kind = "bitfield_clause" := by simpa [Capture.isBitWidth] using isWidth
    rw [Capture.isArrayLength, kind]
    decide
  rw [Capture.constants, if_neg (by simp [other]), if_pos isWidth]

theorem exists_length_of_constant {lengths : List Capture} {name : String}
    (areLengths : ∀ capture ∈ lengths, capture.isArrayLength = true)
    (member : name ∈ (arraySuffix lengths).toList.flatMap identifiers) :
    ∃ capture ∈ lengths, name ∈ capture.constants := by
  unfold arraySuffix at member
  split at member
  · cases member
  · dsimp only at member
    split at member
    · cases member
    · rw [Option.toList_some, List.flatMap_singleton] at member
      obtain ⟨text, isText, inside⟩ := mem_identifiers_of_intercalate member
      obtain ⟨capture, isCapture, rfl⟩ := List.mem_map.mp (List.mem_reverse.mp isText)
      refine ⟨capture, isCapture, ?_⟩
      rwa [Capture.constants, if_pos (areLengths capture isCapture)]

theorem exists_width_of_constant {captures : List Capture} {name : String}
    (member : name ∈ (takeBitWidth captures).1.toList.flatMap identifiers) :
    ∃ capture ∈ captures, name ∈ capture.constants := by
  cases captures with
  | nil => cases member
  | cons first rest =>
      rw [takeBitWidth] at member
      split at member
      · rename_i isWidth
        refine ⟨first, List.mem_cons_self, ?_⟩
        rw [Capture.constants_of_width isWidth]
        simpa using member
      · simp at member

/-- All constants of a field are those of some captures. -/
def Field.SpelledBy (field : Field) (captures : List Capture) : Prop :=
  ∀ name ∈ field.constants, ∃ capture ∈ captures, name ∈ capture.constants

theorem Field.SpelledBy.mono {field : Field} {captures more : List Capture}
    (spelled : field.SpelledBy captures) (subset : captures ⊆ more) : field.SpelledBy more := by
  intro name member
  obtain ⟨capture, isCapture, inside⟩ := spelled name member
  exact ⟨capture, subset isCapture, inside⟩

/-- The constants of a named field are spelled by the captures after the name. -/
theorem spelledBy_named (name : String) (type : TypeExpr) (rest : List Capture) :
    Field.SpelledBy ⟨name, type, arraySuffix (rest.takeWhile Capture.isArrayLength), (fieldTail rest).1⟩
      rest := by
  intro constant member
  rw [Field.constants, List.flatMap_append, List.mem_append] at member
  rcases member with inLength | inWidth
  · obtain ⟨capture, isCapture, inside⟩ :=
      exists_length_of_constant (fun _ => List.mem_takeWhile_imp) inLength
    exact ⟨capture, (List.takeWhile_sublist _).subset isCapture, inside⟩
  · obtain ⟨capture, isCapture, inside⟩ := exists_width_of_constant inWidth
    exact ⟨capture, (List.dropWhile_sublist _).subset isCapture, inside⟩

/-- The constants of fields are those of the captures that they are read from. -/
theorem spelledBy_readFields {known result : List Field} {captures : List Capture}
    {before after : Registry} (returns : (readFields known captures).Returns before result after) :
    ∀ field ∈ result, field ∈ known ∨ field.SpelledBy captures := by
  intro field isField
  induction known, captures using readFields.induct generalizing before with
  | case1 known type next rest padding named =>
      rw [readFields] at returns
      obtain ⟨target, between, _, later⟩ := returns_bind_iff.mp returns
      split at later
      · rename_i isWidth
        rcases padding target later with earlier | further
        · refine (List.mem_append.mp earlier).imp_right fun new => ?_
          intro name member
          refine ⟨next, by simp, ?_⟩
          rw [Capture.constants_of_width isWidth]
          simpa [List.mem_singleton.mp new, Field.constants] using member
        · exact Or.inr (further.mono fun _ member => by simp [member])
      · rcases named target later with earlier | further
        · refine (List.mem_append.mp earlier).imp_right fun new => ?_
          rw [List.mem_singleton.mp new]
          exact (spelledBy_named _ _ _).mono fun _ member => by simp [member]
        · exact Or.inr (further.mono fun _ member => by simp [subset_fieldTail rest member])
  | case2 known captures short =>
      rw [readFields] at returns
      · obtain ⟨rfl, rfl⟩ := returns_pure_iff.mp returns
        exact Or.inl isField
      · exact short

/-! ### Values in a module -/

namespace Module

section

variable {registry : Registry} {name : String}

/-- A line of the block of constants or of the block of enumerations binds a name: it binds a macro, the
class of an enumeration, or a member of one. -/
inductive BindsValue (registry : Registry) (name : String) : Line → Prop where
  | constant {constant : Constant} (declared : constant ∈ constants registry)
      (isName : constant.name = name) : BindsValue registry name (.plain (constantText constant))
  | enumeration {enumeration : Enumeration} (declared : enumeration ∈ enumerations registry)
      (isName : enumeration.name = name) :
      BindsValue registry name (.classHead enumeration.name (.named "ctypes.c_int"))
  | member {enumeration : Enumeration} {member : Enumerator}
      (declared : enumeration ∈ enumerations registry) (isMember : member ∈ enumeration.members)
      (isName : member.name = name) :
      BindsValue registry name (.plain (member.name ++ " = " ++ member.value))

theorem exists_bindsValue_iff : (∃ line, BindsValue registry name line) ↔
    (∃ constant ∈ constants registry, constant.name = name) ∨
      ∃ enumeration ∈ enumerations registry, enumeration.name = name ∨
        ∃ member ∈ enumeration.members, member.name = name := by
  constructor
  · rintro ⟨line, binds⟩
    cases binds with
    | constant declared isName => exact Or.inl ⟨_, declared, isName⟩
    | enumeration declared isName => exact Or.inr ⟨_, declared, Or.inl isName⟩
    | member declared isMember isName => exact Or.inr ⟨_, declared, Or.inr ⟨_, isMember, isName⟩⟩
  · rintro (⟨_, declared, isName⟩ | ⟨_, declared, isName | ⟨_, isMember, isName⟩⟩)
    · exact ⟨_, .constant declared isName⟩
    · exact ⟨_, .enumeration declared isName⟩
    · exact ⟨_, .member declared isMember isName⟩

/-- A name is reserved as a constant exactly if a macro or a member of an enumeration has it. -/
theorem isDeclared_constants_iff (consistent : registry.Consistent) :
    registry.isDeclared .constants name = true ↔
      (∃ constant ∈ constants registry, constant.name = name) ∨
        ∃ enumeration ∈ enumerations registry,
          ∃ member ∈ enumeration.members, member.name = name := by
  have bound := (consistent.bound .constants).mem_iff (a := name)
  rw [Registry.isDeclared, List.contains_iff_mem, ← bound, Registry.boundNames, if_pos rfl,
    List.mem_append]
  refine or_congr ?_ ?_
  · constructor
    · intro member
      obtain ⟨declaration, emitted, rfl⟩ := List.mem_map.mp member
      have placed := consistent.placed .constants declaration emitted
      cases declaration with
      | constant c => exact ⟨c, List.mem_filterMap.mpr ⟨_, emitted, rfl⟩, rfl⟩
      | typeAlias | record | enumeration | function => cases placed
    · rintro ⟨constant, member, rfl⟩
      obtain ⟨declaration, emitted, isConstant⟩ := List.mem_filterMap.mp member
      cases declaration with
      | constant c =>
          cases isConstant
          exact List.mem_map.mpr ⟨_, emitted, rfl⟩
      | typeAlias | record | enumeration | function => cases isConstant
  · constructor
    · intro inside
      obtain ⟨declaration, emitted, member⟩ := List.mem_flatMap.mp inside
      cases declaration with
      | enumeration e =>
          obtain ⟨enumerator, isMember, rfl⟩ := List.mem_map.mp member
          exact ⟨e, mem_enumerations.mpr emitted, enumerator, isMember, rfl⟩
      | constant | typeAlias | record | function => cases member
    · rintro ⟨enumeration, declared, enumerator, isMember, rfl⟩
      exact List.mem_flatMap.mpr
        ⟨_, mem_enumerations.mp declared, List.mem_map.mpr ⟨enumerator, isMember, rfl⟩⟩

/-- The categories whose blocks bind values. -/
def valueCategories : List Category := [.constants, .enumerations]

theorem BindsValue.mem_blockLines {line : Line} (binds : BindsValue registry name line) :
    ∃ category ∈ valueCategories, line ∈ blockLines registry category := by
  cases binds with
  | constant declared _ =>
      refine ⟨.constants, by decide, (infix_spaced (List.mem_map_of_mem declared)).subset ?_⟩
      simp [constantLines]
  | enumeration declared _ =>
      refine ⟨.enumerations, by decide, (infix_spaced (List.mem_map_of_mem declared)).subset ?_⟩
      simp [enumerationLines]
  | member declared isMember _ =>
      refine ⟨.enumerations, by decide, (infix_spaced (List.mem_map_of_mem declared)).subset ?_⟩
      exact List.mem_append_right _ (List.mem_map_of_mem isMember)

/-- No line of a block that binds values is that of a field. -/
theorem not_field_of_mem_blockLines {category : Category} (isValue : category ∈ valueCategories)
    {field : Field} : .fieldLine field ∉ blockLines registry category := by
  intro member
  rcases mem_spaced member with isBlank | ⟨group, isGroup, inGroup⟩
  · cases isBlank
  · rcases List.mem_pair.mp isValue with rfl | rfl
    · obtain ⟨constant, _, rfl⟩ := List.mem_map.mp isGroup
      simp [constantLines] at inGroup
    · obtain ⟨enumeration, _, rfl⟩ := List.mem_map.mp isGroup
      simp only [enumerationLines, Line.blank] at inGroup
      split at inGroup <;> simp at inGroup

/-- The groups of lines of a module up to its values. -/
def valueGroups (registry : Registry) (library : Option String) : List (List Line) :=
  [openingLines registry, [.plain "import ctypes"],
      [.plain ("_lib = ctypes.CDLL(" ++ libraryText library ++ ")")]]
    ++ (if registry.emitted.functions.isEmpty then [] else [helperLines])
    ++ valueCategories.filterMap (titledLines? registry)

theorem prefix_spaced {blanks : Nat} {first : List (List Line)} (some_ : first ≠ [])
    (second : List (List Line)) : spaced blanks first <+: spaced blanks (first ++ second) := by
  induction first with
  | nil => exact absurd rfl some_
  | cons group rest ih =>
      by_cases more : rest = []
      · subst more
        by_cases last : second = []
        · simp [last]
        · rw [List.singleton_append, spaced_cons last]
          simp [spaced]
      · rw [List.cons_append, spaced_cons more, spaced_cons (by simp [more])]
        rw [List.prefix_append_right_inj, List.prefix_append_right_inj]
        exact ih more

theorem valueGroups_prefix (library : Option String) :
    spaced 2 (valueGroups registry library) <+: layout registry library := by
  have parts : blockOrder = valueCategories ++ [Category.types, Category.functions] := rfl
  unfold layout
  rw [parts, List.filterMap_append, ← List.append_assoc]
  exact prefix_spaced (by simp [valueGroups]) _

theorem mem_titledLines? {category : Category} {titled : List Line} {line : Line}
    (isTitled : titledLines? registry category = some titled) (member : line ∈ titled) :
    (∃ content, line = .plain content) ∨ line ∈ blockLines registry category := by
  unfold titledLines? at isTitled
  split at isTitled
  · cases isTitled
  · cases isTitled
    rcases mem_spaced member with rfl | ⟨group, isGroup, inGroup⟩
    · exact Or.inl ⟨_, rfl⟩
    · rcases List.mem_pair.mp isGroup with rfl | rfl
      · simp only [bannerLines, List.mem_cons, List.not_mem_nil, or_false] at inGroup
        rcases inGroup with rfl | rfl | rfl <;> exact Or.inl ⟨_, rfl⟩
      · exact Or.inr inGroup

theorem not_field_of_mem_valueGroups {library : Option String} {field : Field} :
    .fieldLine field ∉ spaced 2 (valueGroups registry library) := by
  intro member
  rcases mem_spaced member with isBlank | ⟨group, isGroup, inGroup⟩
  · cases isBlank
  · rcases List.mem_append.mp isGroup with isFirst | isBlock
    · simp only [List.mem_append, List.mem_cons, List.not_mem_nil, or_false] at isFirst
      rcases isFirst with (rfl | rfl | rfl) | isHelper
      · simp [openingLines] at inGroup
      · simp at inGroup
      · simp at inGroup
      · split at isHelper
        · cases isHelper
        · rw [List.mem_singleton.mp isHelper] at inGroup
          simp [helperLines] at inGroup
    · obtain ⟨category, isValue, isTitled⟩ := List.mem_filterMap.mp isBlock
      rcases mem_titledLines? isTitled inGroup with ⟨content, isPlain⟩ | inBlock
      · cases isPlain
      · exact not_field_of_mem_blockLines isValue inBlock

/-- Values are bound before fields. -/
theorem BindsValue.mem_before {line : Line} (binds : BindsValue registry name line)
    {library : Option String} {field : Field} {before after : List Line}
    (split : layout registry library = before ++ .fieldLine field :: after) : line ∈ before := by
  obtain ⟨category, isValue, inBlock⟩ := binds.mem_blockLines
  have inValues : line ∈ spaced 2 (valueGroups registry library) := by
    have isTitled := titledLines?_of_ne_nil (List.ne_nil_of_mem inBlock)
    have isGroup := List.mem_append_right ([openingLines registry, [.plain "import ctypes"],
      [.plain ("_lib = ctypes.CDLL(" ++ libraryText library ++ ")")]]
        ++ if registry.emitted.functions.isEmpty then [] else [helperLines])
      (List.mem_filterMap.mpr ⟨category, isValue, isTitled⟩)
    apply (infix_spaced isGroup).subset
    exact (infix_spaced (by simp)).subset inBlock
  obtain ⟨back, parts⟩ : spaced 2 (valueGroups registry library) <+: layout registry library :=
    valueGroups_prefix library
  rcases List.append_eq_append_iff.mp (parts.trans split) with
      ⟨between, rfl, _⟩ | ⟨rest, isFront, isField⟩
  · exact List.mem_append_left _ inValues
  · cases rest with
    | nil => simpa [isFront] using inValues
    | cons first rest =>
        obtain ⟨rfl, _⟩ := List.cons_eq_cons.mp isField
        have inFront : .fieldLine field ∈ spaced 2 (valueGroups registry library) := by simp [isFront]
        exact absurd inFront not_field_of_mem_valueGroups

end

end Module

/-! ### Constants of a session -/

/-- A session reserves a name that a document defines as a literal. -/
theorem Offer.Pass.isDeclared_of_defines {before after : Registry} {offers : List Offer}
    {document : Document} {name literal : String}
    (pass : Offer.Pass Rules.table Rules.alphabet before offers after)
    (offered : ∀ node ∈ (Cursor.root document.tree).walk, Offer.node document.bytes node ∈ offers)
    (defines : document.Defines name literal) (named : name ≠ "") :
    after.isDeclared .constants name = true := by
  obtain ⟨node, inside, claimed, first, second, leaves, isLiteral, rfl⟩ := defines
  obtain ⟨earlier, later, rfl⟩ := List.append_of_mem (offered node inside)
  obtain ⟨here, captures, next, _, dispatched, rest⟩ := pass.at_node
  obtain ⟨_, ran⟩ := Rules.returns_run_of_dispatch claimed dispatched
  obtain ⟨one, other, sameLeaves, captured⟩ := Rules.captures_of_macro document.bytes claimed
  obtain ⟨rfl, tail⟩ := List.cons_eq_cons.mp (leaves.symm.trans sameLeaves)
  obtain ⟨rfl, _⟩ := List.cons_eq_cons.mp tail
  rw [captured] at ran
  obtain ⟨made, _, _, declares⟩ := declaresUnder_defineConstant (first.leaf document.bytes)
    (second.leaf document.bytes) [] isLiteral
  exact rest.steps.isDeclared (declares.isDeclared named ran)

namespace Session

section

variable {requests : List Request} {registry : Registry} {usual : Mode} {name : String}

/-- A macro that a session emits is defined by one of its documents. -/
theorem Generated.defines_of_constant
    (generated : Generated Rules.table Rules.alphabet usual requests registry) {constant : Constant}
    (emitted : constant ∈ Module.constants registry) :
    ∃ request ∈ requests, request.document.Defines constant.name constant.value := by
  obtain ⟨declaration, isEmitted, isConstant⟩ := List.mem_filterMap.mp emitted
  have inConstants : declaration ∈ registry.emitted.get .constants := isEmitted
  obtain ⟨request, isRequest, node, inside, action, claimed, makes⟩ :=
    generated.exists_emission inConstants
  cases declaration with
  | constant c =>
      cases isConstant
      exact ⟨request, isRequest, Document.defines_of_makes inside claimed makes⟩
  | typeAlias | record | enumeration | function => cases isConstant

theorem Generated.bound_of_defines
    (generated : Generated Rules.table Rules.alphabet usual requests registry) {request : Request}
    {literal : String} (isRequest : request ∈ requests) (defines : request.document.Defines name literal)
    (named : name ≠ "") : ∃ line, Module.BindsValue registry name line := by
  have declared := generated.pass.isDeclared_of_defines (fun node inside =>
    Request.mem_offers_iff.mpr ⟨request, isRequest, rfl, inside⟩) defines named
  rw [Module.exists_bindsValue_iff]
  exact ((Module.isDeclared_constants_iff generated.pass.consistent).mp declared).imp_right
    fun ⟨enumeration, isEnumeration, member⟩ => ⟨enumeration, isEnumeration, Or.inr member⟩

/-- The identifiers in the lengths and widths of a field come from what is captured of the node that
declares its record. The module binds such a name before the line of the field exactly if a document of the
session defines it as a literal, or the module binds an enumeration or a member of one with this name:
nothing asks whether it does when the field is declared. -/
theorem Generated.field_constant_bound_iff
    (generated : Generated Rules.table Rules.alphabet usual requests registry) {record : Record}
    {field : Field} (declared : .record record ∈ registry.emitted.types)
    (isField : field ∈ record.fields) (used : name ∈ field.constants) (library : Option String) :
    (∃ request ∈ requests, ∃ node ∈ (Cursor.root request.document.tree).walk,
      ∃ action ∈ [.declareRecord, .declareTypedefRecord], Rules.Claims node action ∧
        ∃ capture ∈ (node.capturesAfter request.document.bytes []).reverse,
          name ∈ capture.constants) ∧
    .fieldLine field ∈ Module.layout registry library ∧
    ∀ before after, Module.layout registry library = before ++ .fieldLine field :: after →
      ((∃ line ∈ before, Module.BindsValue registry name line) ↔
        (∃ request ∈ requests, ∃ literal, request.document.Defines name literal) ∨
          ∃ enumeration ∈ Module.enumerations registry, enumeration.name = name ∨
            ∃ member ∈ enumeration.members, member.name = name) := by
  refine ⟨?_, ?_, ?_⟩
  · have inTypes : .record record ∈ registry.emitted.get .types := declared
    obtain ⟨request, isRequest, node, inside, action, claimed, makes⟩ :=
      generated.exists_emission inTypes
    cases makes with
    | record of part read =>
        have spelled := (spelledBy_readFields read field isField).resolve_left (by simp)
        exact ⟨request, isRequest, node, inside, action, of, claimed, spelled.mono part name used⟩
  · apply (Module.fieldsLines_infix declared library).subset
    unfold Module.fieldsLines
    rw [if_neg (by simpa using List.ne_nil_of_mem isField)]
    simp [isField]
  · intro before after split
    constructor
    · rintro ⟨line, _, binds⟩
      rcases Module.exists_bindsValue_iff.mp ⟨line, binds⟩ with
          ⟨constant, emitted, rfl⟩ | ofEnumeration
      · obtain ⟨request, isRequest, defines⟩ := generated.defines_of_constant emitted
        exact Or.inl ⟨request, isRequest, _, defines⟩
      · exact Or.inr ofEnumeration
    · intro bound
      obtain ⟨line, binds⟩ : ∃ line, Module.BindsValue registry name line := by
        rcases bound with ⟨request, isRequest, literal, defines⟩ | ofEnumeration
        · exact generated.bound_of_defines isRequest defines (ne_empty_of_mem_constants used)
        · exact Module.exists_bindsValue_iff.mpr (Or.inr ofEnumeration)
      exact ⟨line, binds.mem_before split, binds⟩

end

/-- Two macros, and a struct with two bit fields of their widths. -/
def widthsOfMacros : Document where
  bytes := "#define W 3\n#define _V 4\nstruct S { int a : W; int b : _V; };".toUTF8.toList
  tree := .node ⟨"translation_unit", 0, 61, none⟩ [
    .node ⟨"preproc_def", 0, 12, none⟩ [
      .node ⟨"identifier", 8, 9, some "name"⟩ [], .node ⟨"preproc_arg", 10, 11, some "value"⟩ []],
    .node ⟨"preproc_def", 12, 25, none⟩ [
      .node ⟨"identifier", 20, 22, some "name"⟩ [], .node ⟨"preproc_arg", 23, 24, some "value"⟩ []],
    .node ⟨"struct_specifier", 25, 60, none⟩ [
      .node ⟨"type_identifier", 32, 33, some "name"⟩ [],
      .node ⟨"field_declaration_list", 34, 60, some "body"⟩ [
        .node ⟨"field_declaration", 36, 46, none⟩ [
          .node ⟨"primitive_type", 36, 39, some "type"⟩ [],
          .node ⟨"field_identifier", 40, 41, some "declarator"⟩ [],
          .node ⟨"bitfield_clause", 42, 45, none⟩ [.node ⟨"identifier", 44, 45, none⟩ []]],
        .node ⟨"field_declaration", 47, 58, none⟩ [
          .node ⟨"primitive_type", 47, 50, some "type"⟩ [],
          .node ⟨"field_identifier", 51, 52, some "declarator"⟩ [],
          .node ⟨"bitfield_clause", 53, 57, none⟩ [.node ⟨"identifier", 55, 57, none⟩ []]]]]]
  hasError := false

/-- The struct with the two bit fields. -/
def twoWidths : Record :=
  ⟨"S", "struct S", "s.h", false,
    [⟨"a", .named "ctypes.c_int", none, some "W"⟩, ⟨"b", .named "ctypes.c_int", none, some "_V"⟩]⟩

/-- What the macros and the struct leave. -/
def afterWidthsOfMacros : Registry :=
  ⟨"s.h", ["s.h"], ⟨["W", "V"], ["S"], [], []⟩,
    ⟨[.constant ⟨"W", "3", "s.h"⟩, .constant ⟨"V", "4", "s.h"⟩], [.record twoWidths], [], []⟩,
      [], []⟩

theorem generated_widthsOfMacros :
    Generated Rules.table Rules.alphabet .c ([] ++ [⟨"", "s.h", widthsOfMacros⟩])
      afterWidthsOfMacros := by
  have returns : (Generation.generate (m := Run) Rules.table Rules.alphabet Generation.runDefault .c
      "" "s.h" widthsOfMacros).Returns .empty 3 afterWidthsOfMacros := by
    rw [Rules.table_eq, Rules.alphabet_eq]
    decide +kernel
  exact .more .nothing returns

/-- The name of the first width is bound before the field. -/
theorem Generated.field_constant_bound_iff_widthsOfMacros :
    ∃ requests registry, Generated Rules.table Rules.alphabet .c requests registry ∧
      .record twoWidths ∈ registry.emitted.types ∧
      ∃ field ∈ twoWidths.fields, "W" ∈ field.constants ∧
      ∃ before after, Module.layout registry none = before ++ .fieldLine field :: after ∧
        ∃ line ∈ before, Module.BindsValue registry "W" line := by
  have generated := generated_widthsOfMacros
  have declared : .record twoWidths ∈ afterWidthsOfMacros.emitted.types := by decide
  let field : Field := ⟨"a", .named "ctypes.c_int", none, some "W"⟩
  have isField : field ∈ twoWidths.fields := by decide
  have used : "W" ∈ field.constants := by decide
  obtain ⟨_, written, bound_iff⟩ :=
    Generated.field_constant_bound_iff generated declared isField used none
  obtain ⟨before, after, split⟩ := List.append_of_mem written
  have emitted : ⟨"W", "3", "s.h"⟩ ∈ Module.constants afterWidthsOfMacros := by decide
  obtain ⟨request, isRequest, defines⟩ := generated.defines_of_constant emitted
  exact ⟨_, _, generated, declared, field, isField, used, before, after, split,
    (bound_iff before after split).mpr (Or.inl ⟨request, isRequest, _, defines⟩)⟩

/-- The name of the second width is bound nowhere: its macro is bound under another name. -/
theorem unbound_width_widthsOfMacros :
    ∃ requests registry, Generated Rules.table Rules.alphabet .c requests registry ∧
      .record twoWidths ∈ registry.emitted.types ∧
      ∃ field ∈ twoWidths.fields, "_V" ∈ field.constants ∧
        .fieldLine field ∈ Module.layout registry none ∧
        ∀ line, ¬ Module.BindsValue registry "_V" line := by
  have unbound : ¬ ∃ line, Module.BindsValue afterWidthsOfMacros "_V" line := by
    rw [Module.exists_bindsValue_iff]
    decide
  refine ⟨_, _, generated_widthsOfMacros, by decide, _, List.mem_cons_of_mem _ List.mem_cons_self,
    by decide, ?_, fun line binds => unbound ⟨line, binds⟩⟩
  apply (Module.fieldsLines_infix
    (by decide : .record twoWidths ∈ afterWidthsOfMacros.emitted.types) none).subset
  simp [Module.fieldsLines, twoWidths]

end Session

end HeaderBindings
