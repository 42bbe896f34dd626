/-
Module: HeaderBindings.Proofs.BindingOrder
Purpose: Which types a generated module binds before it uses them.
Main exports: Module.BoundBeforeUse, Module.UsedEarly, Module.boundBeforeUse_iff,
  Session.Reached.binding_order
-/
import HeaderBindings.Proofs.ModuleLines
import HeaderBindings.Proofs.Sessions
import Mathlib.Data.List.Nodup

namespace HeaderBindings.Module

open Spelling

/-! ### Order of lines -/

/-- After some lines, every line that uses a type comes after one that binds it. -/
def BoundAfter (known given : List Line) (name : String) : Prop :=
  ∀ (before : List Line) (line : Line) (after : List Line), given = before ++ line :: after →
    name ∈ line.uses → ∃ earlier ∈ known ++ before, earlier.binds = some name

/-- Every line that uses a type comes after one that binds it. -/
def BoundBeforeUse (given : List Line) (name : String) : Prop :=
  ∀ (before : List Line) (line : Line) (after : List Line), given = before ++ line :: after →
    name ∈ line.uses → ∃ earlier ∈ before, earlier.binds = some name

theorem matters_of_binds {line : Line} {name : String} (binds : line.binds = some name) :
    line.matters = true := by
  cases line with
  | plain => cases binds
  | classHead | aliasLine | fieldsHead | fieldLine | functionLine => rfl

theorem matters_of_uses {line : Line} {name : String} (uses : name ∈ line.uses) :
    line.matters = true := by
  cases line with
  | plain => cases uses
  | classHead | aliasLine | fieldsHead | fieldLine | functionLine => rfl

/-- Only the lines that matter count. -/
theorem boundBeforeUse_iff_filter {given : List Line} {name : String} :
    BoundBeforeUse given name ↔ BoundBeforeUse (given.filter Line.matters) name := by
  constructor
  · intro bound before line after split uses
    obtain ⟨first, second, rfl, rfl, isSecond⟩ := List.filter_eq_append_iff.mp split
    obtain ⟨skipped, rest, rfl, none, _, _⟩ := List.filter_eq_cons_iff.mp isSecond
    obtain ⟨earlier, member, binds⟩ := bound (first ++ skipped) line rest (by simp) uses
    refine ⟨earlier, ?_, binds⟩
    rcases List.mem_append.mp member with inFirst | inSkipped
    · exact List.mem_filter.mpr ⟨inFirst, matters_of_binds binds⟩
    · exact absurd (matters_of_binds binds) (none earlier inSkipped)
  · rintro bound before line after rfl uses
    rw [List.filter_append, List.filter_cons_of_pos (matters_of_uses uses)] at bound
    obtain ⟨earlier, member, binds⟩ := bound _ line _ rfl uses
    exact ⟨earlier, (List.mem_filter.mp member).1, binds⟩

theorem boundAfter_append {known first second : List Line} {name : String} :
    BoundAfter known (first ++ second) name ↔
      BoundAfter known first name ∧ BoundAfter (known ++ first) second name := by
  constructor
  · intro bound
    constructor
    · rintro before line after rfl uses
      exact bound before line (after ++ second) (by simp) uses
    · rintro before line after rfl uses
      have earlier := bound (first ++ before) line after (by simp) uses
      rwa [← List.append_assoc] at earlier
  · rintro ⟨inFirst, inSecond⟩ before line after split uses
    rcases List.append_eq_append_iff.mp split with ⟨rest, rfl, parts⟩ | ⟨rest, rfl, parts⟩
    · rw [← List.append_assoc]
      exact inSecond rest line after parts uses
    · cases rest with
      | nil =>
          obtain ⟨earlier, member, binds⟩ := inSecond [] line after parts.symm uses
          exact ⟨earlier, by simpa using member, binds⟩
      | cons head rest =>
          obtain ⟨rfl, _⟩ := List.cons.inj parts
          exact inFirst before line rest rfl uses

theorem boundAfter_of_no_uses {known given : List Line} {name : String}
    (unused : ∀ line ∈ given, name ∉ line.uses) : BoundAfter known given name := by
  rintro before line after rfl uses
  exact absurd uses (unused line (by simp))

theorem boundAfter_of_known {known given : List Line} {name : String}
    (bound : ∀ line ∈ given, name ∈ line.uses → ∃ earlier ∈ known, earlier.binds = some name) :
    BoundAfter known given name := by
  rintro before line after rfl uses
  obtain ⟨earlier, member, binds⟩ := bound line (by simp) uses
  exact ⟨earlier, List.mem_append_left _ member, binds⟩

/-! ### Heads of classes

All classes come before the further names of types, and their heads use no declared type. -/

section

variable {registry : Registry} {name : String}

/-- The heads of all classes, in order. -/
def heads (registry : Registry) : List Line := enumerationHeads registry ++ classHeads registry

theorem reference?_c_int : (TypeExpr.named "ctypes.c_int").reference? = none :=
  TypeExpr.reference?_of_library (String.startsWith_string_iff.mpr (by decide))

theorem reference?_structure : (TypeExpr.named "ctypes.Structure").reference? = none :=
  reference?_opaqueTarget

theorem reference?_union : (TypeExpr.named "ctypes.Union").reference? = none :=
  TypeExpr.reference?_of_library (String.startsWith_string_iff.mpr (by decide))

/-- The class of a declared type has one line that matters, its head. -/
theorem filter_classLines {declaration : Declaration} {group : List Line}
    (isClass : classLines? declaration = some group)
    (opaqueTarget : ∀ typeAlias, declaration = .typeAlias typeAlias → typeAlias.isOpaque = true →
      typeAlias.target = HeaderBindings.opaqueTarget) :
    ∃ base, group.filter Line.matters = [.classHead declaration.name base] ∧
      base.reference? = none := by
  cases declaration with
  | record r =>
      cases isClass
      refine ⟨_, rfl, ?_⟩
      split
      · exact reference?_union
      · exact reference?_structure
  | typeAlias a =>
      simp only [classLines?] at isClass
      split at isClass
      · rename_i isOpaque
        cases isClass
        refine ⟨a.target, rfl, ?_⟩
        rw [opaqueTarget a rfl isOpaque]
        exact reference?_structure
      · cases isClass
  | constant | enumeration | function => cases isClass

/-- The heads of classes are those of enumerations, of undeclared types, and of declared types that
have classes of their own. -/
theorem mem_heads (consistent : registry.Consistent) {line : Line} (member : line ∈ heads registry) :
    ∃ bound base, line = .classHead bound base ∧ base.reference? = none ∧
      ((∃ enumeration ∈ enumerations registry, enumeration.name = bound) ∨
        bound ∈ registry.undeclaredTypes ∨
        ∃ declaration ∈ registry.emitted.types, (classLines? declaration).isSome = true ∧
          declaration.name = bound) := by
  rcases List.mem_append.mp member with ofEnumeration | ofClass
  · obtain ⟨enumeration, declared, rfl⟩ := List.mem_map.mp ofEnumeration
    exact ⟨_, _, rfl, reference?_c_int, Or.inl ⟨enumeration, declared, rfl⟩⟩
  · obtain ⟨group, isGroup, inGroup⟩ := List.mem_flatMap.mp ofClass
    rcases List.mem_append.mp isGroup with placeholder | declared
    · obtain ⟨bound, undeclared, rfl⟩ := List.mem_map.mp placeholder
      obtain rfl := List.mem_singleton.mp (inGroup : line ∈ [Line.classHead bound _])
      exact ⟨bound, _, rfl, reference?_structure, Or.inr (Or.inl undeclared)⟩
    · obtain ⟨declaration, isDeclared, isClass⟩ := List.mem_filterMap.mp declared
      obtain ⟨base, filtered, unused⟩ := filter_classLines isClass fun typeAlias same =>
        consistent.opaqueTarget typeAlias (same ▸ isDeclared)
      rw [filtered] at inGroup
      obtain rfl := List.mem_singleton.mp inGroup
      exact ⟨_, base, rfl, unused,
        Or.inr (Or.inr ⟨declaration, isDeclared, by rw [isClass]; rfl, rfl⟩)⟩

theorem bound_of_enumeration {enumeration : Enumeration}
    (declared : enumeration ∈ enumerations registry) :
    ∃ line ∈ heads registry, line.binds = some enumeration.name :=
  ⟨_, List.mem_append_left _ (List.mem_map.mpr ⟨enumeration, declared, rfl⟩), rfl⟩

theorem bound_of_undeclared (undeclared : name ∈ registry.undeclaredTypes) :
    ∃ line ∈ heads registry, line.binds = some name := by
  refine ⟨.classHead name (.named "ctypes.Structure"), List.mem_append_right _ ?_, rfl⟩
  refine List.mem_flatMap.mpr ⟨placeholderLines name, ?_, by
    simp [placeholderLines, Line.matters]⟩
  exact List.mem_append_left _ (List.mem_map.mpr ⟨name, undeclared, rfl⟩)

theorem bound_of_class (consistent : registry.Consistent) {declaration : Declaration}
    (declared : declaration ∈ registry.emitted.types)
    (isClass : (classLines? declaration).isSome = true) :
    ∃ line ∈ heads registry, line.binds = some declaration.name := by
  obtain ⟨group, isGroup⟩ := Option.isSome_iff_exists.mp isClass
  obtain ⟨base, filtered, _⟩ := filter_classLines isGroup fun typeAlias same =>
    consistent.opaqueTarget typeAlias (same ▸ declared)
  refine ⟨.classHead declaration.name base, List.mem_append_right _ ?_, rfl⟩
  refine List.mem_flatMap.mpr ⟨group, ?_, by rw [filtered]; simp⟩
  exact List.mem_append_right _ (List.mem_filterMap.mpr ⟨declaration, declared, isGroup⟩)

/-! ### Names of declared types -/

theorem mem_enumerations {enumeration : Enumeration} :
    enumeration ∈ enumerations registry ↔
      .enumeration enumeration ∈ registry.emitted.enumerations := by
  unfold enumerations
  rw [List.mem_filterMap]
  constructor
  · rintro ⟨declaration, declared, isEnumeration⟩
    cases declaration with
    | enumeration e =>
        cases isEnumeration
        exact declared
    | constant | typeAlias | record | function => cases isEnumeration
  · intro declared
    exact ⟨_, declared, rfl⟩

/-- The name of an enumeration that was declared is reserved, and conversely. -/
theorem isDeclared_enumerations_iff (consistent : registry.Consistent) :
    registry.isDeclared .enumerations name = true ↔
      ∃ enumeration ∈ enumerations registry, enumeration.name = name := by
  rw [consistent.isDeclared_iff (by decide)]
  constructor
  · intro member
    obtain ⟨declaration, declared, rfl⟩ := List.mem_map.mp member
    have placed := consistent.placed .enumerations declaration declared
    cases declaration with
    | enumeration e => exact ⟨e, mem_enumerations.mpr declared, rfl⟩
    | constant | typeAlias | record | function => cases placed
  · rintro ⟨enumeration, member, rfl⟩
    exact List.mem_map.mpr ⟨_, mem_enumerations.mp member, rfl⟩

/-- The names of declared types are reserved, and conversely. -/
theorem isDeclared_types_iff (consistent : registry.Consistent) :
    registry.isDeclared .types name = true ↔
      ∃ declaration ∈ registry.emitted.types, declaration.name = name := by
  rw [consistent.isDeclared_iff (by decide)]
  exact List.mem_map

theorem nodup_typeNames (consistent : registry.Consistent) :
    (registry.emitted.types.map Declaration.name).Nodup :=
  consistent.nodup_names (show Category.types ≠ .constants by decide)

theorem mem_plainAliases {typeAlias : Alias} :
    typeAlias ∈ plainAliases registry ↔
      .typeAlias typeAlias ∈ registry.emitted.types ∧ typeAlias.isOpaque = false := by
  constructor
  · intro member
    obtain ⟨declaration, declared, isAlias⟩ := List.mem_filterMap.mp member
    cases declaration with
    | typeAlias a =>
        simp only [plainAlias?] at isAlias
        split at isAlias
        · cases isAlias
        · rename_i isPlain
          cases isAlias
          exact ⟨declared, by simpa using isPlain⟩
    | constant | record | enumeration | function => cases isAlias
  · rintro ⟨declared, isPlain⟩
    exact List.mem_filterMap.mpr ⟨_, declared, by simp [plainAlias?, isPlain]⟩

/-- A declared type has a class of its own, or is a further name of a type. -/
theorem class_or_plainAlias (consistent : registry.Consistent) {declaration : Declaration}
    (declared : declaration ∈ registry.emitted.types) :
    (classLines? declaration).isSome = true ∨
      ∃ typeAlias ∈ plainAliases registry, typeAlias.name = declaration.name := by
  have placed := consistent.placed .types declaration declared
  cases declaration with
  | record r => exact Or.inl rfl
  | typeAlias a =>
      cases isOpaque : a.isOpaque with
      | true => exact Or.inl (by simp [classLines?, isOpaque])
      | false => exact Or.inr ⟨a, mem_plainAliases.mpr ⟨declared, isOpaque⟩, rfl⟩
  | constant | enumeration | function => cases placed

theorem name_of_plainAlias? {declaration : Declaration} {typeAlias : Alias}
    (isAlias : plainAlias? declaration = some typeAlias) : declaration.name = typeAlias.name := by
  cases declaration with
  | typeAlias a =>
      simp only [plainAlias?] at isAlias
      split at isAlias
      · cases isAlias
      · cases isAlias
        rfl
  | constant | record | enumeration | function => cases isAlias

/-- What is read off some declarations has the names of these, in the same order. -/
theorem sublist_names {α : Type} {reads : Declaration → Option α} {nameOf : α → String}
    (named : ∀ declaration entry, reads declaration = some entry → declaration.name = nameOf entry)
    (declarations : List Declaration) :
    ((declarations.filterMap reads).map nameOf).Sublist (declarations.map Declaration.name) := by
  induction declarations with
  | nil => exact .slnil
  | cons declaration rest ih =>
      rw [List.filterMap_cons, List.map_cons]
      split
      · exact ih.cons _
      · rename_i entry isEntry
        rw [List.map_cons, ← named declaration entry isEntry]
        exact ih.cons_cons _

theorem nodup_plainAliasNames (consistent : registry.Consistent) :
    ((plainAliases registry).map Alias.name).Nodup :=
  (nodup_typeNames consistent).sublist
    (sublist_names (fun _ _ => name_of_plainAlias?) registry.emitted.types)

/-- A name that declarations use is bound by the head of a class, or by a further name of a type. -/
theorem bound_of_referenced (consistent : registry.Consistent)
    (referenced : name ∈ registry.referenced) :
    (∃ line ∈ heads registry, line.binds = some name) ∨
      ∃ typeAlias ∈ plainAliases registry, typeAlias.name = name := by
  cases ofEnumeration : registry.isDeclared .enumerations name with
  | true =>
      obtain ⟨enumeration, declared, rfl⟩ := (isDeclared_enumerations_iff consistent).mp ofEnumeration
      exact Or.inl (bound_of_enumeration declared)
  | false =>
      cases ofType : registry.isDeclared .types name with
      | true =>
          obtain ⟨declaration, declared, rfl⟩ := (isDeclared_types_iff consistent).mp ofType
          rcases class_or_plainAlias consistent declared with isClass | isAlias
          · exact Or.inl (bound_of_class consistent declared isClass)
          · exact Or.inr isAlias
      | false =>
          refine Or.inl (bound_of_undeclared (List.mem_filter.mpr ⟨referenced, ?_⟩))
          simp [ofEnumeration, ofType]

/-! ### Types that are used too early -/

/-- A further name of a type uses a type that is itself bound as a further name, not earlier, and by
no enumeration. -/
def UsedEarly (registry : Registry) (name : String) : Prop :=
  ∃ (before : List Alias) (using_ : Alias) (after : List Alias),
    plainAliases registry = before ++ using_ :: after ∧
    using_.target.reference? = some name ∧
    (∃ late ∈ using_ :: after, late.name = name) ∧
    ∀ enumeration ∈ enumerations registry, enumeration.name ≠ name

/-- The head of a class binds a type that is also a further name only if it is an enumeration's. -/
theorem enumeration_of_bound (consistent : registry.Consistent) {line : Line} {typeAlias : Alias}
    (isHead : line ∈ heads registry) (binds : line.binds = some name)
    (isAlias : typeAlias ∈ plainAliases registry) (named : typeAlias.name = name) :
    ∃ enumeration ∈ enumerations registry, enumeration.name = name := by
  obtain ⟨declared, isPlain⟩ := mem_plainAliases.mp isAlias
  obtain ⟨bound, base, rfl, _, origin⟩ := mem_heads consistent isHead
  obtain rfl := Option.some.inj binds
  rcases origin with ofEnumeration | undeclared | ⟨other, isOther, isClass, sameName⟩
  · exact ofEnumeration
  · have reserved := (isDeclared_types_iff consistent).mpr ⟨_, declared, named⟩
    have unreserved := (List.mem_filter.mp undeclared).2
    simp [reserved] at unreserved
  · have same : other = .typeAlias typeAlias :=
      List.inj_on_of_nodup_map (nodup_typeNames consistent) isOther declared
        (sameName.trans named.symm)
    rw [same] at isClass
    simp [classLines?, isPlain] at isClass

theorem boundAfter_aliases_iff (consistent : registry.Consistent) :
    BoundAfter (heads registry) ((plainAliases registry).map .aliasLine) name ↔
      ¬ UsedEarly registry name := by
  constructor
  · rintro bound ⟨before, using_, after, split, uses, ⟨late, isLate, named⟩, noEnumeration⟩
    have isAlias : late ∈ plainAliases registry := by
      rw [split]
      exact List.mem_append_right _ isLate
    have lines : (plainAliases registry).map Line.aliasLine
        = before.map .aliasLine ++ .aliasLine using_ :: after.map .aliasLine := by
      rw [split, List.map_append, List.map_cons]
    obtain ⟨earlier, member, binds⟩ := bound _ _ _ lines (by simp [Line.uses, uses])
    rcases List.mem_append.mp member with isHead | isEarlier
    · obtain ⟨enumeration, declared, sameName⟩ :=
        enumeration_of_bound consistent isHead binds isAlias named
      exact noEnumeration enumeration declared sameName
    · obtain ⟨early, isEarly, rfl⟩ := List.mem_map.mp isEarlier
      have distinct := nodup_plainAliasNames consistent
      rw [split, List.map_append, List.nodup_append] at distinct
      have sameName : early.name = late.name := (Option.some.inj binds).trans named.symm
      exact distinct.2.2 early.name (List.mem_map_of_mem isEarly) late.name
        (List.mem_map_of_mem isLate) sameName
  · intro notEarly before line after split uses
    obtain ⟨first, rest, parts, rfl, isRest⟩ := List.map_eq_append_iff.mp split
    obtain ⟨using_, second, rfl, rfl, rfl⟩ := List.map_eq_cons_iff.mp isRest
    have used : using_.target.reference? = some name := by simpa [Line.uses] using uses
    have isUsing : using_ ∈ plainAliases registry := by simp [parts]
    have referenced : name ∈ registry.referenced := by
      refine consistent.noted .types _ (mem_plainAliases.mp isUsing).1 name ?_
      simp [Declaration.references_typeAlias, used]
    rcases bound_of_referenced consistent referenced with ⟨head, isHead, binds⟩ | ⟨a, isAlias, named⟩
    · exact ⟨head, List.mem_append_left _ isHead, binds⟩
    · rw [parts] at isAlias
      rcases List.mem_append.mp isAlias with isEarlier | isLate
      · exact ⟨.aliasLine a, List.mem_append_right _ (List.mem_map_of_mem isEarlier),
          congrArg some named⟩
      · by_cases ofEnumeration : ∃ enumeration ∈ enumerations registry, enumeration.name = name
        · obtain ⟨enumeration, declared, rfl⟩ := ofEnumeration
          obtain ⟨head, isHead, binds⟩ := bound_of_enumeration declared
          exact ⟨head, List.mem_append_left _ isHead, binds⟩
        · refine absurd ⟨first, using_, second, parts, used, ⟨a, isLate, named⟩, ?_⟩ notEarly
          intro enumeration declared sameName
          exact ofEnumeration ⟨enumeration, declared, sameName⟩

/-- What records and functions use is bound before: all classes and further names of types come
first. -/
theorem bound_of_later_use (consistent : registry.Consistent) {line : Line}
    (member : line ∈ recordFieldLines registry ++ (functions registry).map .functionLine)
    (uses : name ∈ line.uses) :
    ∃ earlier ∈ heads registry ++ (plainAliases registry).map .aliasLine,
      earlier.binds = some name := by
  have fromReference : name ∈ registry.referenced →
      ∃ earlier ∈ heads registry ++ (plainAliases registry).map .aliasLine,
        earlier.binds = some name := by
    intro referenced
    rcases bound_of_referenced consistent referenced with ⟨head, isHead, binds⟩ | ⟨a, isAlias, named⟩
    · exact ⟨head, List.mem_append_left _ isHead, binds⟩
    · exact ⟨.aliasLine a, List.mem_append_right _ (List.mem_map_of_mem isAlias),
        congrArg some named⟩
  rcases List.mem_append.mp member with ofRecord | ofFunction
  · obtain ⟨record, isRecord, inFields⟩ := List.mem_flatMap.mp ofRecord
    have declared : .record record ∈ registry.emitted.types := by
      obtain ⟨declaration, declared, same⟩ := List.mem_filterMap.mp isRecord
      cases declaration with
      | record r =>
          cases same
          exact declared
      | constant | typeAlias | enumeration | function => cases same
    rcases List.mem_cons.mp inFields with rfl | isField
    · obtain rfl := List.mem_singleton.mp uses
      obtain ⟨head, isHead, binds⟩ := bound_of_class consistent declared rfl
      exact ⟨head, List.mem_append_left _ isHead, binds⟩
    · obtain ⟨field, inRecord, rfl⟩ := List.mem_map.mp isField
      refine fromReference (consistent.noted .types _ declared name ?_)
      rw [Declaration.references_record]
      exact List.mem_filterMap.mpr ⟨field, inRecord, by simpa [Line.uses] using uses⟩
  · obtain ⟨function, isFunction, rfl⟩ := List.mem_map.mp ofFunction
    obtain ⟨declaration, declared, same⟩ := List.mem_filterMap.mp isFunction
    cases declaration with
    | function f =>
        cases same
        refine fromReference (consistent.noted .functions _ declared name ?_)
        rwa [Declaration.references_function]
    | constant | typeAlias | record | enumeration => cases same

/-- A module binds a type before every use exactly if no further name of a type uses it early. -/
theorem boundBeforeUse_iff (consistent : registry.Consistent) (library : Option String) :
    BoundBeforeUse (layout registry library) name ↔ ¬ UsedEarly registry name := by
  have order : (layout registry library).filter Line.matters
      = heads registry ++ ((plainAliases registry).map .aliasLine
        ++ (recordFieldLines registry ++ (functions registry).map .functionLine)) := by
    rw [filter_layout]
    simp only [heads, List.append_assoc]
  have unused : ∀ line ∈ heads registry, name ∉ line.uses := by
    intro line isHead
    obtain ⟨bound, base, rfl, noReference, _⟩ := mem_heads consistent isHead
    simp [Line.uses, noReference]
  have whole : BoundBeforeUse (layout registry library) name ↔
      BoundAfter [] (heads registry ++ ((plainAliases registry).map .aliasLine
        ++ (recordFieldLines registry ++ (functions registry).map .functionLine))) name := by
    rw [boundBeforeUse_iff_filter, order]
    rfl
  rw [whole, boundAfter_append, boundAfter_append, List.nil_append,
    boundAfter_aliases_iff consistent]
  constructor
  · rintro ⟨_, notEarly, _⟩
    exact notEarly
  · intro notEarly
    refine ⟨boundAfter_of_no_uses unused, notEarly, boundAfter_of_known fun line member uses => ?_⟩
    exact bound_of_later_use consistent member uses

/-- Every type that a declaration uses is used by a line. -/
theorem used_of_references (consistent : registry.Consistent) (library : Option String)
    {category : Category} {declaration : Declaration}
    (declared : declaration ∈ registry.emitted.get category) (uses : name ∈ declaration.references) :
    ∃ line ∈ layout registry library, name ∈ line.uses := by
  have inLayout : ∀ {line : Line}, line ∈ (plainAliases registry).map .aliasLine
      ++ (recordFieldLines registry ++ (functions registry).map .functionLine) →
      line ∈ layout registry library := by
    intro line member
    have matters : line ∈ (layout registry library).filter Line.matters := by
      rw [filter_layout]
      simp only [List.append_assoc, List.mem_append] at member ⊢
      exact Or.inr (Or.inr member)
    exact (List.mem_filter.mp matters).1
  have placed := consistent.placed category declaration declared
  cases declaration with
  | constant | enumeration => cases uses
  | typeAlias a =>
      obtain rfl : category = .types := placed.symm
      rw [Declaration.references_typeAlias] at uses
      cases isOpaque : a.isOpaque with
      | true =>
          rw [consistent.opaqueTarget a declared isOpaque, opaqueTarget, reference?_structure] at uses
          cases uses
      | false =>
          have isAlias := mem_plainAliases.mpr ⟨declared, isOpaque⟩
          exact ⟨.aliasLine a, inLayout (List.mem_append_left _ (List.mem_map_of_mem isAlias)), uses⟩
  | record r =>
      obtain rfl : category = .types := placed.symm
      rw [Declaration.references_record] at uses
      obtain ⟨field, inRecord, used⟩ := List.mem_filterMap.mp uses
      have isRecord : r ∈ records registry := List.mem_filterMap.mpr ⟨_, declared, rfl⟩
      refine ⟨.fieldLine field, inLayout ?_, by simp [Line.uses, used]⟩
      refine List.mem_append_right _ (List.mem_append_left _ ?_)
      exact List.mem_flatMap.mpr ⟨r, isRecord,
        List.mem_cons_of_mem _ (List.mem_map_of_mem inRecord)⟩
  | function f =>
      obtain rfl : category = .functions := placed.symm
      rw [Declaration.references_function] at uses
      have isFunction : f ∈ functions registry := List.mem_filterMap.mpr ⟨_, declared, rfl⟩
      refine ⟨.functionLine f, inLayout ?_, uses⟩
      exact List.mem_append_right _ (List.mem_append_right _ (List.mem_map_of_mem isFunction))

end

end HeaderBindings.Module

namespace HeaderBindings.Session

open HeaderBindings.Module HeaderBindings.Run HeaderBindings.Spelling

/-- In every registry that a session comes to, each type that a declaration uses is used by a line of
the module. The module binds the type before all lines that use it exactly if the type is not used
early: if no further name of a type stands for it before, or as, the further name that it is. -/
theorem Reached.binding_order {table : Table Action} {alphabet : Alphabet} {registry : Registry}
    (reached : Reached table alphabet registry) (library : Option String) (name : String) :
    render registry library = textOf (layout registry library) ++ "\n" ∧
      (∀ category, ∀ declaration ∈ registry.emitted.get category, name ∈ declaration.references →
        ∃ line ∈ layout registry library, name ∈ line.uses) ∧
      (BoundBeforeUse (layout registry library) name ↔ ¬ UsedEarly registry name) := by
  have consistent := reached.consistent
  refine ⟨render_eq registry library, ?_, boundBeforeUse_iff consistent library⟩
  intro category declaration declared uses
  exact used_of_references consistent library declared uses

/-- A type definition whose type is defined nowhere in the document. -/
def nameForA : Document where
  bytes := "typedef A B;".toUTF8.toList
  tree := .node ⟨"translation_unit", 0, 12, none⟩ [
    .node ⟨"type_definition", 0, 12, none⟩ [
      .node ⟨"type_identifier", 8, 9, some "type"⟩ [],
      .node ⟨"type_identifier", 10, 11, some "declarator"⟩ []]]
  hasError := false

/-- A definition of the type. -/
def definitionOfA : Document where
  bytes := "typedef int A;".toUTF8.toList
  tree := .node ⟨"translation_unit", 0, 14, none⟩ [
    .node ⟨"type_definition", 0, 14, none⟩ [
      .node ⟨"primitive_type", 8, 11, some "type"⟩ [],
      .node ⟨"type_identifier", 12, 13, some "declarator"⟩ []]]
  hasError := false

/-- The name that the first document declares. -/
def aliasB : Alias := ⟨"B", .named "A", "b.h", false⟩

/-- The name that the second document declares. -/
def aliasA : Alias := ⟨"A", .named "ctypes.c_int", "a.h", false⟩

/-- The registry after both documents, the definition last. -/
def definedLater : Registry :=
  ⟨"a.h", ["b.h", "a.h"], ⟨[], ["B", "A"], [], []⟩,
    ⟨[], [.typeAlias aliasB, .typeAlias aliasA], [], []⟩, ["A"], []⟩

/-- The registry after both documents, the definition first. -/
def definedEarlier : Registry :=
  ⟨"b.h", ["a.h", "b.h"], ⟨[], ["A", "B"], [], []⟩,
    ⟨[], [.typeAlias aliasA, .typeAlias aliasB], [], []⟩, ["A"], []⟩

theorem reached_definedLater : Reached Rules.table Rules.alphabet definedLater := by
  have first : (Generation.generate (m := Run) Rules.table Rules.alphabet Generation.runDefault .c
      "" "b.h" nameForA).Returns .empty 1
      ⟨"b.h", ["b.h"], ⟨[], ["B"], [], []⟩, ⟨[], [.typeAlias aliasB], [], []⟩, ["A"], []⟩ := by
    rw [Rules.table_eq, Rules.alphabet_eq]
    decide +kernel
  have second : (Generation.generate (m := Run) Rules.table Rules.alphabet Generation.runDefault .c
      "" "a.h" definitionOfA).Returns
      ⟨"b.h", ["b.h"], ⟨[], ["B"], [], []⟩, ⟨[], [.typeAlias aliasB], [], []⟩, ["A"], []⟩ 1
      definedLater := by
    rw [Rules.table_eq, Rules.alphabet_eq]
    decide +kernel
  exact .generated (.generated .empty first) second

theorem reached_definedEarlier : Reached Rules.table Rules.alphabet definedEarlier := by
  have first : (Generation.generate (m := Run) Rules.table Rules.alphabet Generation.runDefault .c
      "" "a.h" definitionOfA).Returns .empty 1
      ⟨"a.h", ["a.h"], ⟨[], ["A"], [], []⟩, ⟨[], [.typeAlias aliasA], [], []⟩, [], []⟩ := by
    rw [Rules.table_eq, Rules.alphabet_eq]
    decide +kernel
  have second : (Generation.generate (m := Run) Rules.table Rules.alphabet Generation.runDefault .c
      "" "b.h" nameForA).Returns
      ⟨"a.h", ["a.h"], ⟨[], ["A"], [], []⟩, ⟨[], [.typeAlias aliasA], [], []⟩, [], []⟩ 1
      definedEarlier := by
    rw [Rules.table_eq, Rules.alphabet_eq]
    decide +kernel
  exact .generated (.generated .empty first) second

/-- With the definition first, the type is bound before its further name uses it. -/
theorem Reached.binding_order_definedEarlier :
    Reached Rules.table Rules.alphabet definedEarlier ∧
      BoundBeforeUse (layout definedEarlier none) "A" := by
  refine ⟨reached_definedEarlier, (reached_definedEarlier.binding_order none "A").2.2.mpr ?_⟩
  rintro ⟨before, using_, after, split, uses, ⟨late, isLate, named⟩, _⟩
  have listed : plainAliases definedEarlier = [aliasA, aliasB] := rfl
  rw [listed] at split
  rcases before with _ | ⟨first, _ | ⟨second, rest⟩⟩
  · obtain ⟨rfl, _⟩ := List.cons.inj split
    rw [aliasA, reference?_c_int] at uses
    cases uses
  · obtain ⟨rfl, rfl⟩ := List.cons.inj (List.cons.inj split).2
    rw [List.mem_singleton.mp isLate] at named
    exact absurd named (by decide)
  · simp at split

/-- With the definition last, the module uses the type on the line before the one that binds it. -/
theorem not_boundBeforeUse_definedLater :
    Reached Rules.table Rules.alphabet definedLater ∧
      "A" ∈ (Declaration.typeAlias aliasB).references ∧
      (layout definedLater none).filter Line.matters = [.aliasLine aliasB, .aliasLine aliasA] ∧
      ¬ BoundBeforeUse (layout definedLater none) "A" := by
  have order : (layout definedLater none).filter Line.matters
      = [.aliasLine aliasB, .aliasLine aliasA] := by
    rw [filter_layout]
    rfl
  have uses : aliasB.target.reference? = some "A" :=
    TypeExpr.reference?_eq_some_iff.mpr ⟨rfl, by decide, by decide, by
      rw [← Bool.not_eq_true, String.startsWith_string_iff]
      decide⟩
  refine ⟨reached_definedLater, by simp [Declaration.references_typeAlias, uses], order, ?_⟩
  intro bound
  rw [boundBeforeUse_iff_filter, order] at bound
  obtain ⟨earlier, member, _⟩ := bound [] (.aliasLine aliasB) [.aliasLine aliasA] rfl
    (by simp [Line.uses, uses])
  cases member

end HeaderBindings.Session
