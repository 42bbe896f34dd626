/-
Module: HeaderBindings.Proofs.Additions
Purpose: What a registry becomes when it takes in a declaration, and the steps of which all its changes
  consist.
Main exports: Declaration.references, Registry.Admits, Registry.takeIn, Registry.Step,
  Registry.Consistent, Registry.Consistent.of_steps
-/
import HeaderBindings.Proofs.RunSteps
import HeaderBindings.Binding.Simple
import Mathlib.Logic.Relation

namespace HeaderBindings

open Spelling

/-! ### What a declaration binds and uses -/

/-- What an opaque alias stands for uses no declared type. -/
theorem reference?_opaqueTarget : opaqueTarget.reference? = none :=
  TypeExpr.reference?_of_library (String.startsWith_string_iff.mpr (by decide))

namespace Declaration

/-- The category that a declaration belongs to. -/
def category : Declaration → Category
  | constant _ => .constants
  | typeAlias _ | record _ => .types
  | enumeration _ => .enumerations
  | function _ => .functions

/-- The names of constants that a declaration binds besides its own name. -/
def memberNames : Declaration → List String
  | enumeration e => e.members.map (·.name)
  | _ => []

/-- The expressions of types in a declaration. -/
def types : Declaration → List TypeExpr
  | typeAlias a => [a.target]
  | record r => r.fields.map (·.type)
  | function f => f.returnType.toList ++ f.parameters.map (·.type)
  | constant _ | enumeration _ => []

/-- The declared types that a declaration uses. -/
def references (declaration : Declaration) : List String :=
  declaration.types.filterMap TypeExpr.reference?

theorem references_typeAlias (typeAlias : Alias) :
    (Declaration.typeAlias typeAlias).references = typeAlias.target.reference?.toList := by
  cases used : typeAlias.target.reference? <;> simp [references, types, used]

theorem references_record (record : Record) :
    (Declaration.record record).references
      = record.fields.filterMap fun field => field.type.reference? := by
  rw [references, types, List.filterMap_map]
  rfl

theorem references_function (function : Function) :
    (Declaration.function function).references
      = (function.returnType.bind TypeExpr.reference?).toList
        ++ function.parameters.filterMap fun parameter => parameter.type.reference? := by
  rw [references, types, List.filterMap_append, List.filterMap_map]
  congr 1
  cases function.returnType with
  | none => rfl
  | some type => cases used : type.reference? <;> simp [used]

/-- The names that a declaration takes in a category. -/
def takes (declaration : Declaration) (category : Category) : List String :=
  (if category = declaration.category then [declaration.name] else [])
    ++ (if category = .constants then declaration.memberNames else [])

theorem mem_takes {declaration : Declaration} {category : Category} {name : String} :
    name ∈ declaration.takes category ↔
      category = declaration.category ∧ name = declaration.name ∨
        category = .constants ∧ name ∈ declaration.memberNames := by
  unfold takes
  split <;> split <;> simp_all

/-- A declaration with different members takes different names: what has members is no constant. -/
theorem nodup_takes {declaration : Declaration} (distinct : declaration.memberNames.Nodup)
    (category : Category) : (declaration.takes category).Nodup := by
  cases declaration <;> cases category <;>
    simp_all [takes, Declaration.category, Declaration.memberNames]

end Declaration

namespace ByCategory

theorem modify_modify {α : Type} (values : ByCategory α) (category : Category)
    (first second : α → α) :
    (values.modify category first).modify category second
      = values.modify category fun value => second (first value) := by
  cases category <;> rfl

theorem modify_id {α : Type} (values : ByCategory α) (category : Category) :
    (values.modify category fun value => value) = values := by
  cases category <;> rfl

end ByCategory

namespace Registry

/-! ### Taking in a declaration -/

/-- The registry with several names reserved in a category. -/
def reserveAll (registry : Registry) (category : Category) (names : List String) : Registry :=
  names.foldl (fun registry name => registry.reserve category name) registry

/-- The registry with a declaration in it: its names are reserved, the types it uses are noted, and it
stands at the end of its category. -/
def takeIn (registry : Registry) (declaration : Declaration) : Registry :=
  (((registry.reserve declaration.category declaration.name).reserveAll .constants
    declaration.memberNames).referAll declaration.references).emit declaration.category declaration

/-- A registry may take in a declaration whose names are all there and free, that comes from the
current header, and that is an opaque alias only of the type without known contents. -/
structure Admits (registry : Registry) (declaration : Declaration) : Prop where
  named : declaration.name ≠ ""
  free : registry.isDeclared declaration.category declaration.name = false
  membersNamed : "" ∉ declaration.memberNames
  membersFree : ∀ name ∈ declaration.memberNames, registry.isDeclared .constants name = false
  membersDistinct : declaration.memberNames.Nodup
  here : declaration.header = registry.currentHeader
  opaqueTarget : ∀ typeAlias, declaration = .typeAlias typeAlias → typeAlias.isOpaque = true →
    typeAlias.target = HeaderBindings.opaqueTarget

variable {registry before after : Registry}

namespace Admits

variable {declaration : Declaration} {category : Category}

/-- The names that an admitted declaration takes are there. -/
theorem unnamed_not_mem_takes (admits : registry.Admits declaration) :
    "" ∉ declaration.takes category := by
  intro taken
  rcases Declaration.mem_takes.mp taken with ⟨_, own⟩ | ⟨_, member⟩
  · exact admits.named own.symm
  · exact admits.membersNamed member

/-- The names that an admitted declaration takes are not reserved. -/
theorem not_mem_declared (admits : registry.Admits declaration) {name : String}
    (taken : name ∈ declaration.takes category) : name ∉ registry.declared.get category := by
  have free : registry.isDeclared category name = false := by
    rcases Declaration.mem_takes.mp taken with ⟨rfl, rfl⟩ | ⟨rfl, member⟩
    · exact admits.free
    · exact admits.membersFree name member
  unfold isDeclared at free
  simpa using free

end Admits

theorem reserveAll_eq (registry : Registry) (category : Category) (names : List String) :
    registry.reserveAll category names
      = { registry with declared := registry.declared.modify category (· ++ names) } := by
  unfold reserveAll
  induction names generalizing registry with
  | nil => simp [ByCategory.modify_id]
  | cons first rest ih =>
      rw [List.foldl_cons, ih]
      simp [reserve, ByCategory.modify_modify]

/-- Noting types changes nothing else. -/
theorem referAll_frame (registry : Registry) (names : List String) :
    registry.referAll names
      = { registry with referenced := (registry.referAll names).referenced } := by
  unfold referAll
  induction names generalizing registry with
  | nil => rfl
  | cons first rest ih =>
      rw [List.foldl_cons, ih]
      unfold refer
      split <;> rfl

theorem mem_referenced_referAll {names : List String} {name : String} :
    name ∈ (registry.referAll names).referenced ↔ name ∈ registry.referenced ∨ name ∈ names := by
  unfold referAll
  induction names generalizing registry with
  | nil => simp
  | cons first rest ih =>
      rw [List.foldl_cons, ih, List.mem_cons]
      unfold refer
      split
      · rename_i known
        have member : first ∈ registry.referenced := by simpa using known
        constructor
        · rintro (before | later)
          · exact Or.inl before
          · exact Or.inr (Or.inr later)
        · rintro (before | rfl | later)
          · exact Or.inl before
          · exact Or.inl member
          · exact Or.inr later
      · simp [or_assoc]

theorem referAll_append (registry : Registry) (first second : List String) :
    registry.referAll (first ++ second) = (registry.referAll first).referAll second :=
  List.foldl_append

/-- Taking in a declaration changes the reserved names, the declarations and the noted types, and
nothing else. -/
theorem takeIn_eq (registry : Registry) (declaration : Declaration) :
    registry.takeIn declaration
      = { registry with
          declared := (registry.declared.modify declaration.category
            (· ++ [declaration.name])).modify .constants (· ++ declaration.memberNames)
          emitted := registry.emitted.modify declaration.category (· ++ [declaration])
          referenced := (registry.takeIn declaration).referenced } := by
  unfold takeIn
  rw [referAll_frame, reserveAll_eq]
  rfl

theorem declared_takeIn (registry : Registry) (declaration : Declaration) (category : Category) :
    (registry.takeIn declaration).declared.get category
      = registry.declared.get category ++ declaration.takes category := by
  rw [takeIn_eq]
  cases declaration <;> cases category <;>
    simp [Declaration.takes, Declaration.category, Declaration.memberNames, ByCategory.modify,
      ByCategory.get]

theorem emitted_takeIn (registry : Registry) (declaration : Declaration) :
    (registry.takeIn declaration).emitted
      = registry.emitted.modify declaration.category (· ++ [declaration]) := by
  rw [takeIn_eq]

theorem mem_referenced_takeIn {declaration : Declaration} {name : String} :
    name ∈ (registry.takeIn declaration).referenced ↔
      name ∈ registry.referenced ∨ name ∈ declaration.references := by
  have referenced : (registry.takeIn declaration).referenced
      = (((registry.reserve declaration.category declaration.name).reserveAll .constants
        declaration.memberNames).referAll declaration.references).referenced := rfl
  rw [referenced, mem_referenced_referAll, reserveAll_eq]
  rfl

/-! ### Steps -/

/-- The changes that a registry goes through: another header begins, a name is made up, a declaration
is taken in. -/
inductive Step : Registry → Registry → Prop where
  | header {registry : Registry} (name : String) : Step registry (registry.beginHeader name)
  | made {registry : Registry} (entry : AnonymousKey × String) :
      Step registry { registry with anonymous := registry.anonymous ++ [entry] }
  | admitted {registry : Registry} {declaration : Declaration}
      (admits : registry.Admits declaration) : Step registry (registry.takeIn declaration)

/-- Any number of steps. -/
abbrev Steps : Registry → Registry → Prop := Relation.ReflTransGen Step

/-! ### Names and declarations -/

/-- The names bound by the declarations of a category; the members of enumerations are bound as
constants. -/
def boundNames (registry : Registry) (category : Category) : List String :=
  (registry.emitted.get category).map Declaration.name
    ++ (if category = .constants then registry.emitted.enumerations.flatMap Declaration.memberNames
      else [])

/-- The reserved names and the declarations of a registry fit together: the reserved names are there,
are different, and are those that declarations bind; every declaration stands in its category, the
types it uses are noted, and an opaque alias is one of the type without known contents. -/
structure Consistent (registry : Registry) : Prop where
  named : ∀ category, "" ∉ registry.declared.get category
  distinct : ∀ category, (registry.declared.get category).Nodup
  bound : ∀ category, (registry.boundNames category).Perm (registry.declared.get category)
  placed : ∀ category, ∀ declaration ∈ registry.emitted.get category,
    declaration.category = category
  noted : ∀ category, ∀ declaration ∈ registry.emitted.get category,
    ∀ name ∈ declaration.references, name ∈ registry.referenced
  opaqueTarget : ∀ typeAlias, .typeAlias typeAlias ∈ registry.emitted.types →
    typeAlias.isOpaque = true → typeAlias.target = HeaderBindings.opaqueTarget

theorem consistent_empty : empty.Consistent where
  named category := by cases category <;> simp [empty]
  distinct category := by cases category <;> simp [empty]
  bound category := by cases category <;> simp [empty, boundNames, ByCategory.const, ByCategory.get]
  placed category := by cases category <;> simp [empty]
  noted category := by cases category <;> simp [empty]
  opaqueTarget := by simp [empty, ByCategory.const]

theorem mem_emitted_takeIn {declaration other : Declaration} {category : Category} :
    other ∈ (registry.takeIn declaration).emitted.get category ↔
      other ∈ registry.emitted.get category ∨
        category = declaration.category ∧ other = declaration := by
  rw [emitted_takeIn]
  by_cases same : category = declaration.category
  · subst same
    simp
  · rw [ByCategory.get_modify_of_ne _ _ same]
    simp [same]

/-- A declaration adds the names that it takes to those that are bound. -/
theorem boundNames_takeIn (registry : Registry) (declaration : Declaration) (category : Category) :
    ((registry.takeIn declaration).boundNames category).Perm
      (registry.boundNames category ++ declaration.takes category) := by
  unfold boundNames Declaration.takes
  rw [emitted_takeIn]
  cases declaration with
  | constant c =>
      cases category <;> simp [Declaration.category, Declaration.memberNames, ByCategory.modify,
        ByCategory.get, Declaration.name]
      exact (List.perm_append_singleton c.name _).symm.append_left _
  | typeAlias | record | enumeration | function =>
      cases category <;> simp [Declaration.category, Declaration.memberNames, ByCategory.modify,
        ByCategory.get, Declaration.name]

theorem Consistent.takeIn {declaration : Declaration} (consistent : registry.Consistent)
    (admits : registry.Admits declaration) : (registry.takeIn declaration).Consistent where
  named category := by
    rw [declared_takeIn, List.mem_append, not_or]
    exact ⟨consistent.named category, admits.unnamed_not_mem_takes⟩
  distinct category := by
    rw [declared_takeIn, List.nodup_append]
    refine ⟨consistent.distinct category, Declaration.nodup_takes admits.membersDistinct category, ?_⟩
    rintro name reserved _ taken rfl
    exact admits.not_mem_declared taken reserved
  bound category := by
    rw [declared_takeIn]
    exact (boundNames_takeIn registry declaration category).trans
      ((consistent.bound category).append_right _)
  placed category other member := by
    rcases mem_emitted_takeIn.mp member with before | ⟨rfl, rfl⟩
    · exact consistent.placed category other before
    · rfl
  noted category other member name isUsed := by
    rw [mem_referenced_takeIn]
    rcases mem_emitted_takeIn.mp member with before | ⟨rfl, rfl⟩
    · exact Or.inl (consistent.noted category other before name isUsed)
    · exact Or.inr isUsed
  opaqueTarget typeAlias member isOpaque := by
    have inTypes : Declaration.typeAlias typeAlias ∈ registry.emitted.get .types ∨
        Category.types = declaration.category ∧ Declaration.typeAlias typeAlias = declaration :=
      mem_emitted_takeIn.mp member
    rcases inTypes with before | ⟨_, same⟩
    · exact consistent.opaqueTarget typeAlias before isOpaque
    · exact admits.opaqueTarget typeAlias same.symm isOpaque

theorem Consistent.of_step (consistent : before.Consistent) (step : Step before after) :
    after.Consistent := by
  cases step with
  | header name => exact ⟨consistent.named, consistent.distinct, consistent.bound, consistent.placed,
      consistent.noted, consistent.opaqueTarget⟩
  | made entry => exact ⟨consistent.named, consistent.distinct, consistent.bound, consistent.placed,
      consistent.noted, consistent.opaqueTarget⟩
  | admitted admits => exact consistent.takeIn admits

theorem Consistent.of_steps (consistent : before.Consistent) (steps : Steps before after) :
    after.Consistent := by
  induction steps with
  | refl => exact consistent
  | tail _ step ih => exact ih.of_step step

/-- Other than as constants, the reserved names are those of the declarations. -/
theorem Consistent.isDeclared_iff {category : Category} {name : String}
    (consistent : registry.Consistent) (other : category ≠ .constants) :
    registry.isDeclared category name = true ↔
      name ∈ (registry.emitted.get category).map Declaration.name := by
  have bound := (consistent.bound category).mem_iff (a := name)
  rw [boundNames, if_neg other, List.append_nil] at bound
  rw [isDeclared, List.contains_iff_mem, ← bound]

/-- Other than as constants, no name is declared twice. -/
theorem Consistent.nodup_names {category : Category} (consistent : registry.Consistent)
    (other : category ≠ .constants) :
    ((registry.emitted.get category).map Declaration.name).Nodup := by
  have bound := consistent.bound category
  rw [boundNames, if_neg other, List.append_nil] at bound
  exact bound.nodup_iff.mpr (consistent.distinct category)

end Registry

end HeaderBindings
