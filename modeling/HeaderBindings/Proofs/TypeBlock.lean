/-
Module: HeaderBindings.Proofs.TypeBlock
Purpose: The block of types of a generated module: in which order its lines come, and that it binds each
  declared type and each undeclared one once, and nothing else.
Main exports: Module.classHead?, Module.typeLines_eq, Module.binds_typeLines, Module.perm_typeNames,
  Session.Offered.type_block_binds_once
-/
import HeaderBindings.Proofs.LastBindings
import HeaderBindings.Proofs.ReferencedTypes

namespace HeaderBindings.Module

open Spelling

variable {registry : Registry}

/-! ### The lines of the block -/

/-- The head of the class of a record. -/
def recordHead (record : Record) : Line :=
  .classHead record.name (.named (if record.isUnion then "ctypes.Union" else "ctypes.Structure"))

/-- The head of the class of a type that is used but not declared. -/
def placeholderHead (name : String) : Line := .classHead name (.named "ctypes.Structure")

/-- The head of the class of a declared type, if it has one of its own. -/
def classHead? : Declaration → Option Line
  | .record record => some (recordHead record)
  | .typeAlias typeAlias =>
      if typeAlias.isOpaque then some (.classHead typeAlias.name typeAlias.target) else none
  | _ => none

/-- The record whose fields a line begins to bind. -/
def Line.fieldsOf? : Line → Option Record
  | fieldsHead record => some record
  | _ => none

theorem filter_classLines?_toList (declaration : Declaration) :
    ((classLines? declaration).toList.flatMap fun group => group.filter Line.matters)
      = (classHead? declaration).toList := by
  cases declaration with
  | record r => rfl
  | typeAlias a =>
      unfold classLines? classHead?
      dsimp only
      split <;> rfl
  | constant | enumeration | function => rfl

/-- Undeclared types have their classes first, then come those of declared types. -/
theorem classHeads_eq (registry : Registry) :
    classHeads registry = registry.undeclaredTypes.map placeholderHead
      ++ registry.emitted.types.filterMap classHead? := by
  unfold classHeads classGroups
  rw [List.flatMap_append, List.flatMap_map, List.map_eq_flatMap]
  congr 1
  induction registry.emitted.types with
  | nil => rfl
  | cons declaration rest ih =>
      have own := filter_classLines?_toList declaration
      rw [List.filterMap_cons, List.filterMap_cons]
      cases isClass : classLines? declaration with
      | none =>
          rw [isClass] at own
          cases isHead : classHead? declaration with
          | none => exact ih
          | some head =>
              rw [isHead] at own
              cases own
      | some group =>
          rw [isClass, Option.toList_some, List.flatMap_singleton] at own
          rw [List.flatMap_cons, ih, own]
          cases classHead? declaration <;> rfl

/-- Without blank and plain lines, the block of types has first the heads of the classes of undeclared
types, then those of declared types, then the further names of types, then the fields of records. -/
theorem typeLines_eq (registry : Registry) :
    (blockLines registry .types).filter Line.matters
      = registry.undeclaredTypes.map placeholderHead ++ registry.emitted.types.filterMap classHead?
        ++ (plainAliases registry).map .aliasLine ++ recordFieldLines registry := by
  rw [filter_typeLines, classHeads_eq]

/-- What lines bind can be read off those that matter. -/
theorem filterMap_matters {α : Type} (lines : List Line) {reads : Line → Option α}
    (plain : ∀ content, reads (.plain content) = none) :
    lines.filterMap reads = (lines.filter Line.matters).filterMap reads := by
  rw [List.filterMap_filter]
  refine List.filterMap_congr fun line _ => ?_
  cases line with
  | plain content => exact plain content
  | classHead | aliasLine | fieldsHead | fieldLine | functionLine => rfl

theorem filterMap_recordFieldLines {α : Type} (registry : Registry) {reads : Line → Option α}
    (fields : ∀ field, reads (.fieldLine field) = none) :
    (recordFieldLines registry).filterMap reads
      = (records registry).filterMap fun record => reads (.fieldsHead record) := by
  unfold recordFieldLines
  induction records registry with
  | nil => rfl
  | cons record rest ih =>
      have ofFields : (record.fields.map Line.fieldLine).filterMap reads = [] := by
        rw [List.filterMap_map, List.filterMap_eq_nil_iff]
        exact fun field _ => fields field
      rw [List.flatMap_cons, List.filterMap_append, ih, List.filterMap_cons, List.filterMap_cons,
        ofFields]
      cases reads (.fieldsHead record) <;> rfl

/-- The block binds the undeclared types, then the declared types that have classes, then further names. -/
theorem binds_typeLines (registry : Registry) :
    (blockLines registry .types).filterMap Line.binds
      = registry.undeclaredTypes
        ++ (registry.emitted.types.filterMap fun declaration => (classHead? declaration).bind Line.binds)
        ++ (plainAliases registry).map Alias.name := by
  have placeholders : (registry.undeclaredTypes.map placeholderHead).filterMap Line.binds
      = registry.undeclaredTypes := by
    rw [List.filterMap_map]
    exact List.filterMap_some
  have aliases : ((plainAliases registry).map Line.aliasLine).filterMap Line.binds
      = (plainAliases registry).map Alias.name := by
    rw [List.filterMap_map, ← List.filterMap_eq_map]
    rfl
  have fields : (recordFieldLines registry).filterMap Line.binds = [] := by
    rw [filterMap_recordFieldLines registry fun _ => rfl]
    simp [Line.binds]
  rw [filterMap_matters _ fun _ => rfl, typeLines_eq, List.filterMap_append, List.filterMap_append,
    List.filterMap_append, placeholders, List.filterMap_filterMap, aliases, fields, List.append_nil]

/-! ### Each declared type once -/

/-- Every declared type has a class or is a further name, and not both. -/
theorem perm_typeNames {declarations : List Declaration}
    (areTypes : ∀ declaration ∈ declarations, declaration.category = .types) :
    ((declarations.filterMap fun declaration => (classHead? declaration).bind Line.binds)
      ++ (declarations.filterMap plainAlias?).map Alias.name).Perm
      (declarations.map Declaration.name) := by
  induction declarations with
  | nil => exact .refl _
  | cons declaration rest ih =>
      rw [List.forall_mem_cons] at areTypes
      obtain ⟨isType, areRest⟩ := areTypes
      have others := ih areRest
      rw [List.map_cons]
      cases declaration with
      | record r => exact others.cons r.name
      | typeAlias a =>
          cases isOpaque : a.isOpaque with
          | true =>
              rw [List.filterMap_cons_some (b := a.name) (by simp [classHead?, isOpaque, Line.binds]),
                List.filterMap_cons_none (by simp [plainAlias?, isOpaque])]
              exact others.cons a.name
          | false =>
              rw [List.filterMap_cons_none (by simp [classHead?, isOpaque]),
                List.filterMap_cons_some (b := a) (by simp [plainAlias?, isOpaque]), List.map_cons]
              exact List.perm_middle.trans (others.cons a.name)
      | constant | enumeration | function => cases isType

theorem nodup_undeclaredTypes (distinct : registry.referenced.Nodup) :
    registry.undeclaredTypes.Nodup := distinct.filter _

theorem not_isDeclared_of_undeclared {name : String} (undeclared : name ∈ registry.undeclaredTypes) :
    registry.isDeclared .types name = false := by
  have unreserved := (List.mem_filter.mp undeclared).2
  rw [Bool.and_eq_true, Bool.not_eq_true'] at unreserved
  exact unreserved.1

/-- The names that the block binds are different, and are those of declared and of undeclared types. -/
theorem boundTypes (consistent : registry.Consistent) (distinct : registry.referenced.Nodup) :
    ((blockLines registry .types).filterMap Line.binds).Nodup ∧
      ∀ name, name ∈ (blockLines registry .types).filterMap Line.binds ↔
        registry.isDeclared .types name = true ∨ name ∈ registry.undeclaredTypes := by
  have declared := perm_typeNames (consistent.placed .types)
  have isDeclared : ∀ name, name ∈ registry.emitted.types.map Declaration.name ↔
      registry.isDeclared .types name = true := fun name =>
    (consistent.isDeclared_iff (show Category.types ≠ .constants by decide)).symm
  rw [binds_typeLines, List.append_assoc]
  constructor
  · refine List.nodup_append.mpr ⟨nodup_undeclaredTypes distinct,
      declared.nodup_iff.mpr (nodup_typeNames consistent), ?_⟩
    rintro name undeclared _ bound rfl
    have reserved := (isDeclared name).mp (declared.mem_iff.mp bound)
    rw [not_isDeclared_of_undeclared undeclared] at reserved
    cases reserved
  · intro name
    rw [List.mem_append, ← isDeclared, or_comm]
    exact or_congr_left declared.mem_iff

/-! ### Records -/

theorem fieldsOf_typeLines (registry : Registry) :
    (blockLines registry .types).filterMap Line.fieldsOf? = records registry := by
  have heads : (registry.undeclaredTypes.map placeholderHead).filterMap Line.fieldsOf? = [] := by
    simp [List.filterMap_map, placeholderHead, Line.fieldsOf?]
  have classes : (registry.emitted.types.filterMap classHead?).filterMap Line.fieldsOf? = [] := by
    rw [List.filterMap_filterMap, List.filterMap_eq_nil_iff]
    intro declaration _
    cases declaration with
    | record => rfl
    | typeAlias a =>
        rw [classHead?]
        split <;> rfl
    | constant | enumeration | function => rfl
  have aliases : ((plainAliases registry).map Line.aliasLine).filterMap Line.fieldsOf? = [] := by
    simp [List.filterMap_map, Line.fieldsOf?]
  rw [filterMap_matters _ fun _ => rfl, typeLines_eq, List.filterMap_append, List.filterMap_append,
    List.filterMap_append, heads, classes, aliases, filterMap_recordFieldLines registry fun _ => rfl]
  exact List.filterMap_some

/-- Whether a line binds the name of a record. -/
def bindsRecord (registry : Registry) (line : Line) : Bool :=
  line.binds.any fun name => ((records registry).map Record.name).contains name

theorem bindsRecord_eq_false {line : Line} {name : String} (binds : line.binds = some name)
    (other : ∀ record ∈ records registry, record.name ≠ name) : bindsRecord registry line = false := by
  rw [bindsRecord, binds, Option.any_some, List.contains_eq_mem, decide_eq_false_iff_not]
  intro member
  obtain ⟨record, isRecord, same⟩ := List.mem_map.mp member
  exact other record isRecord same

theorem mem_records {record : Record} :
    record ∈ records registry ↔ .record record ∈ registry.emitted.types := by
  unfold records
  rw [List.mem_filterMap]
  constructor
  · rintro ⟨declaration, declared, isRecord⟩
    cases declaration with
    | record r =>
        cases isRecord
        exact declared
    | constant | typeAlias | enumeration | function => cases isRecord
  · intro declared
    exact ⟨_, declared, rfl⟩

theorem nodup_recordNames (consistent : registry.Consistent) :
    ((records registry).map Record.name).Nodup := by
  refine (nodup_typeNames consistent).sublist (sublist_names ?_ registry.emitted.types)
  intro declaration record isRecord
  cases declaration with
  | record r =>
      cases isRecord
      rfl
  | constant | typeAlias | enumeration | function => cases isRecord

/-- No other type has the name of a record. -/
theorem name_ne_of_typeAlias (consistent : registry.Consistent) {typeAlias : Alias}
    (declared : .typeAlias typeAlias ∈ registry.emitted.types) :
    ∀ record ∈ records registry, record.name ≠ typeAlias.name := by
  intro record isRecord same
  cases eq_of_name consistent (mem_records.mp isRecord) declared same

/-- An undeclared type has the name of no record. -/
theorem filter_bindsRecord_placeholders (consistent : registry.Consistent) :
    (registry.undeclaredTypes.map placeholderHead).filter (bindsRecord registry) = [] := by
  rw [List.filter_eq_nil_iff]
  intro line member
  obtain ⟨name, undeclared, rfl⟩ := List.mem_map.mp member
  rw [bindsRecord_eq_false rfl, Bool.not_eq_true]
  rintro record isRecord rfl
  have reserved := (isDeclared_types_iff consistent).mpr ⟨_, mem_records.mp isRecord, rfl⟩
  rw [Declaration.name, not_isDeclared_of_undeclared undeclared] at reserved
  cases reserved

/-- Of the heads of classes, those of the records bind the names of records. -/
theorem filter_bindsRecord_classHeads (consistent : registry.Consistent) :
    (registry.emitted.types.filterMap classHead?).filter (bindsRecord registry)
      = (records registry).map recordHead := by
  rw [List.filter_filterMap, records, List.map_filterMap]
  refine List.filterMap_congr fun declaration declared => ?_
  cases declaration with
  | record r =>
      have own : bindsRecord registry (recordHead r) = true := by
        simpa [bindsRecord, recordHead, Line.binds] using ⟨r, mem_records.mpr declared, rfl⟩
      rw [classHead?, Option.filter_some_pos own]
      rfl
  | typeAlias a =>
      rw [classHead?]
      split
      · have other : bindsRecord registry (.classHead a.name a.target) = false :=
          bindsRecord_eq_false rfl (name_ne_of_typeAlias consistent declared)
        rw [Option.filter_some_neg (by simp [other])]
        rfl
      · rfl
  | constant | enumeration | function => rfl

/-- A further name of a type is the name of no record. -/
theorem filter_bindsRecord_aliases (consistent : registry.Consistent) :
    ((plainAliases registry).map Line.aliasLine).filter (bindsRecord registry) = [] := by
  rw [List.filter_eq_nil_iff]
  intro line member
  obtain ⟨typeAlias, isAlias, rfl⟩ := List.mem_map.mp member
  rw [bindsRecord_eq_false rfl (name_ne_of_typeAlias consistent (mem_plainAliases.mp isAlias).1)]
  simp

/-- The lines of fields bind nothing. -/
theorem filter_bindsRecord_fields (registry : Registry) :
    (recordFieldLines registry).filter (bindsRecord registry) = [] := by
  rw [List.filter_eq_nil_iff]
  intro line member
  obtain ⟨record, _, inFields⟩ := List.mem_flatMap.mp member
  rcases List.mem_cons.mp inFields with rfl | isField
  · exact Bool.false_ne_true
  · obtain ⟨field, _, rfl⟩ := List.mem_map.mp isField
    exact Bool.false_ne_true

/-- The name of a record is bound by the head of its class, and by no other line. -/
theorem filter_bindsRecord (consistent : registry.Consistent) :
    (blockLines registry .types).filter (bindsRecord registry)
      = (records registry).map recordHead := by
  have onlyMatters : (blockLines registry .types).filter (bindsRecord registry)
      = ((blockLines registry .types).filter Line.matters).filter (bindsRecord registry) := by
    rw [List.filter_filter]
    refine List.filter_congr fun line _ => ?_
    cases line with
    | plain content => rfl
    | classHead | aliasLine | fieldsHead | fieldLine | functionLine => exact (Bool.and_true _).symm
  rw [onlyMatters, typeLines_eq, List.filter_append, List.filter_append, List.filter_append,
    filter_bindsRecord_placeholders consistent, filter_bindsRecord_classHeads consistent,
    filter_bindsRecord_aliases consistent, filter_bindsRecord_fields, List.nil_append,
    List.append_nil, List.append_nil]

/-! ### Plain lines -/

theorem mem_gathered {blanks : Nat} {groups : List (List Line)} {group : List Line} {line : Line}
    (isGroup : group ∈ gathered blanks groups) (member : line ∈ group) :
    line = .blank ∨ ∃ part ∈ groups, line ∈ part := by
  unfold gathered at isGroup
  split at isGroup
  · cases isGroup
  · rw [List.mem_singleton.mp isGroup] at member
    exact mem_spaced member

/-- Texts of lines that only go on with a class or with the fields of a record, or are blank. -/
def Continues (content : String) : Prop :=
  content = "" ∨ content = "]" ∨ "    ".toList <+: content.toList

theorem continues_append {start : String} (rest : String)
    (indented : "    ".toList <+: start.toList) : Continues (start ++ rest) := by
  refine Or.inr (Or.inr ?_)
  rw [String.toList_append]
  exact indented.trans (List.prefix_append _ _)

theorem continues_of_mem_classGroups {group : List Line} (isGroup : group ∈ classGroups registry)
    {content : String} (member : .plain content ∈ group) : Continues content := by
  rcases List.mem_append.mp isGroup with placeholder | declared
  · obtain ⟨name, _, rfl⟩ := List.mem_map.mp placeholder
    obtain rfl : content = "    pass" := by simpa [placeholderLines] using member
    exact Or.inr (Or.inr (by decide))
  · obtain ⟨declaration, _, isClass⟩ := List.mem_filterMap.mp declared
    cases declaration with
    | record r =>
        cases isClass
        simp only [recordLines, List.mem_cons, reduceCtorEq, Line.plain.injEq, List.not_mem_nil,
          false_or, or_false] at member
        rcases member with rfl | rfl <;> exact continues_append _ (by decide)
    | typeAlias a =>
        simp only [classLines?] at isClass
        split at isClass
        · cases isClass
          simp only [opaqueLines, List.mem_cons, reduceCtorEq, Line.plain.injEq, List.not_mem_nil,
            false_or, or_false] at member
          rcases member with rfl | rfl <;> exact continues_append _ (by decide)
        · cases isClass
    | constant | enumeration | function => cases isClass

/-- The plain lines of the block only go on with what the line before them began, or are blank. -/
theorem continues_of_mem_typeLines {content : String}
    (member : .plain content ∈ blockLines registry .types) : Continues content := by
  have blank : Line.plain content = .blank → Continues content := by
    rintro ⟨⟩
    exact Or.inl rfl
  rcases mem_spaced member with isBlank | ⟨group, isGroup, inGroup⟩
  · exact blank isBlank
  · rcases List.mem_append.mp isGroup with early | isFields
    · rcases List.mem_append.mp early with isClass | isAlias
      · rcases mem_gathered isClass inGroup with isBlank | ⟨part, isPart, inPart⟩
        · exact blank isBlank
        · exact continues_of_mem_classGroups isPart inPart
      · rcases mem_gathered isAlias inGroup with isBlank | ⟨part, isPart, inPart⟩
        · exact blank isBlank
        · obtain ⟨typeAlias, _, rfl⟩ := List.mem_map.mp isPart
          simp at inPart
    · rcases mem_gathered isFields inGroup with isBlank | ⟨part, isPart, inPart⟩
      · exact blank isBlank
      · obtain ⟨record, _, rfl⟩ := List.mem_map.mp isPart
        unfold fieldsLines at inPart
        split at inPart
        · simp at inPart
        · obtain rfl : content = "]" := by simpa using inPart
          exact Or.inr (Or.inl rfl)

end HeaderBindings.Module

namespace HeaderBindings

open HeaderBindings.Module HeaderBindings.Run HeaderBindings.Spelling

/-- What is read off declared types is read off all that was declared, if nothing else has it. -/
theorem Registry.Chronicled.filterMap_types {registry : Registry} {history : List Declaration}
    (chronicled : registry.Chronicled history) {α : Type} {reads : Declaration → Option α}
    (only : ∀ declaration, declaration.category ≠ .types → reads declaration = none) :
    registry.emitted.types.filterMap reads = history.filterMap reads := by
  have held : registry.emitted.types
      = history.filter fun declaration => declaration.category = Category.types :=
    chronicled.emitted .types
  rw [held, List.filterMap_filter]
  refine List.filterMap_congr fun declaration _ => ?_
  by_cases isType : declaration.category = .types
  · simp [isType]
  · simp [isType, only declaration isType]

namespace Session

variable {table : Table Action} {alphabet : Alphabet}

/-- The block of types of a session binds each type once. Besides blank lines and lines that go on with a
class or with the fields of a record, it has the heads of classes, first of the undeclared types and then of
the declared ones that have classes, then the further names of types, and then the fields of records. One
line binds each declared or undeclared type, and none binds another name. The undeclared types stand in
order of first use. The records stand in the order in which the session emitted them: their names are bound
by the heads of their classes, and the fields of each are bound once. -/
theorem Offered.type_block_binds_once {offers : List Offer} {registry : Registry}
    (offered : Offered table alphabet offers registry) :
    let emitted := table.emissions alphabet .empty offers
    let records := emitted.filterMap Declaration.record?
    let lines := blockLines registry .types
    block registry .types = textOf lines ∧
    (∀ content, .plain content ∈ lines → Continues content) ∧
    lines.filter Line.matters
      = registry.undeclaredTypes.map placeholderHead ++ emitted.filterMap classHead?
        ++ (emitted.filterMap plainAlias?).map .aliasLine
        ++ records.flatMap (fun record => .fieldsHead record :: record.fields.map .fieldLine) ∧
    (∀ name, lines.countP (fun line => line.binds == some name)
      = if registry.isDeclared .types name ∨ name ∈ registry.undeclaredTypes then 1 else 0) ∧
    registry.undeclaredTypes = (emitted.flatMap Declaration.usedNames).eraseDups.filter (fun name =>
      !registry.isDeclared .types name && !registry.isDeclared .enumerations name) ∧
    (records.map Record.name).Nodup ∧
    lines.filter (fun line => line.binds.any fun name => (records.map Record.name).contains name)
      = records.map recordHead ∧
    lines.filterMap Line.fieldsOf? = records := by
  intro emitted records lines
  have consistent := offered.pass.consistent
  have chronicled : registry.Chronicled emitted := offered.pass.chronicled Registry.chronicled_empty
  have distinct : registry.referenced.Nodup := by
    rw [chronicled.referenced]
    exact nodup_eraseDups _
  have heads : registry.emitted.types.filterMap classHead? = emitted.filterMap classHead? := by
    apply chronicled.filterMap_types
    intro declaration other
    cases declaration with
    | record | typeAlias => exact absurd rfl other
    | constant | enumeration | function => rfl
  have aliases : plainAliases registry = emitted.filterMap plainAlias? := by
    apply chronicled.filterMap_types
    intro declaration other
    cases declaration with
    | typeAlias => exact absurd rfl other
    | record | constant | enumeration | function => rfl
  have areRecords : Module.records registry = records := by
    apply chronicled.filterMap_types
    intro declaration other
    cases declaration with
    | record => exact absurd rfl other
    | typeAlias | constant | enumeration | function => rfl
  obtain ⟨once, bound⟩ := boundTypes consistent distinct
  refine ⟨(textOf_blockLines registry .types).symm, fun _ => continues_of_mem_typeLines, ?_, ?_, ?_, ?_,
    ?_, ?_⟩
  · rw [typeLines_eq, heads, aliases, recordFieldLines, areRecords]
  · intro name
    rw [← List.count_filterMap, once.count]
    simp only [bound]
  · rw [Registry.undeclaredTypes, chronicled.referenced]
  · rw [← areRecords]
    exact nodup_recordNames consistent
  · rw [← areRecords]
    exact filter_bindsRecord consistent
  · rw [← areRecords]
    exact fieldsOf_typeLines registry

/-- An opaque alias, a struct with a field of an undeclared type, a plain alias, and a union:
`typedef struct N N; struct P { Q *q; }; typedef R A; union U { int i; };`. -/
def typesOfAllKinds : Document where
  bytes := "typedef struct N N;\nstruct P { Q *q; };\ntypedef R A;\nunion U { int i; };".toUTF8.toList
  tree := .node ⟨"translation_unit", 0, 72, none⟩ [
    .node ⟨"type_definition", 0, 19, none⟩ [
      .node ⟨"struct_specifier", 8, 16, some "type"⟩ [
        .node ⟨"type_identifier", 15, 16, some "name"⟩ []],
      .node ⟨"type_identifier", 17, 18, some "declarator"⟩ []],
    .node ⟨"struct_specifier", 20, 38, none⟩ [
      .node ⟨"type_identifier", 27, 28, some "name"⟩ [],
      .node ⟨"field_declaration_list", 29, 38, some "body"⟩ [
        .node ⟨"field_declaration", 31, 36, none⟩ [
          .node ⟨"type_identifier", 31, 32, some "type"⟩ [],
          .node ⟨"pointer_declarator", 33, 35, some "declarator"⟩ [
            .node ⟨"field_identifier", 34, 35, some "declarator"⟩ []]]]],
    .node ⟨"type_definition", 40, 52, none⟩ [
      .node ⟨"type_identifier", 48, 49, some "type"⟩ [],
      .node ⟨"type_identifier", 50, 51, some "declarator"⟩ []],
    .node ⟨"union_specifier", 53, 71, none⟩ [
      .node ⟨"type_identifier", 59, 60, some "name"⟩ [],
      .node ⟨"field_declaration_list", 61, 71, some "body"⟩ [
        .node ⟨"field_declaration", 63, 69, none⟩ [
          .node ⟨"primitive_type", 63, 66, some "type"⟩ [],
          .node ⟨"field_identifier", 67, 68, some "declarator"⟩ []]]]]
  hasError := false

/-- Two undeclared types come before the classes, a further name after them, and both records have their
fields at the end. -/
theorem Offered.type_block_binds_once_typesOfAllKinds : ∃ offers registry,
    Offered Rules.table Rules.alphabet offers registry ∧
    (blockLines registry .types).filterMap Line.binds = ["Q", "R", "N", "P", "U", "A"] ∧
    (blockLines registry .types).countP (fun line => line.binds == some "P") = 1 ∧
    ((Rules.table.emissions Rules.alphabet .empty offers).filterMap Declaration.record?).map Record.name
      = ["P", "U"] := by
  have returns : (Generation.generate (m := Run) Rules.table Rules.alphabet Generation.runDefault .c ""
      "t.h" typesOfAllKinds).Returns .empty 4
      ⟨"t.h", ["t.h"], ⟨[], ["N", "P", "A", "U"], [], []⟩,
        ⟨[], [.typeAlias ⟨"N", opaqueTarget, "t.h", true⟩,
            .record ⟨"P", "struct P", "t.h", false, [⟨"q", .pointer (.named "Q"), none, none⟩]⟩,
            .typeAlias ⟨"A", .named "R", "t.h", false⟩,
            .record ⟨"U", "union U", "t.h", true, [⟨"i", .named "ctypes.c_int", none, none⟩]⟩],
              [], []⟩,
        ["Q", "R"], []⟩ := by
    rw [Rules.table_eq, Rules.alphabet_eq]
    decide +kernel
  have offered := Offered.generated ⟨"", "t.h", typesOfAllKinds⟩ .nothing returns
  obtain ⟨_, _, _, once, _, _, _, records⟩ := offered.type_block_binds_once
  refine ⟨_, _, offered, by decide, (once "P").trans (by decide), ?_⟩
  rw [← records]
  decide

end Session

end HeaderBindings
