/-
Module: HeaderBindings.Binding.Registry
Purpose: What one run has declared so far: reserved names, declarations, referenced types, names of
  what has none, and headers.
Main exports: Registry, Registry.beginHeader, Registry.declare, Registry.emit,
  Registry.uniqueName, Registry.refer, Registry.undeclaredTypes
-/
import HeaderBindings.Binding.Declaration

namespace HeaderBindings

/-- What a generated name stands for: something in a category, under a header, told apart by a key,
whose names begin with a stem. -/
structure AnonymousKey where
  category : Category
  stem : String
  header : String
  key : List Int
deriving Repr, DecidableEq

/-- The state of one run. Names are reserved in each category, and the declarations of each category
are kept in order. Types are referenced in order of first use. -/
structure Registry where
  currentHeader : String
  headers : List String
  declared : ByCategory (List String)
  emitted : ByCategory (List Declaration)
  referenced : List String
  anonymous : List (AnonymousKey × String)
deriving Repr, DecidableEq

namespace Registry

/-- The state before anything is declared. -/
def empty : Registry := ⟨"", [], .const [], .const [], [], []⟩

/-- Take the declarations that follow from a header. -/
def beginHeader (registry : Registry) (header : String) : Registry :=
  { registry with
    currentHeader := header
    headers := if registry.headers.contains header then registry.headers
      else registry.headers ++ [header] }

/-- Whether a name is reserved in a category. -/
def isDeclared (registry : Registry) (category : Category) (name : String) : Bool :=
  (registry.declared.get category).contains name

/-- Reserve a name in a category. -/
def reserve (registry : Registry) (category : Category) (name : String) : Registry :=
  { registry with declared := registry.declared.modify category (· ++ [name]) }

/-- Reserve a name in a category, unless it is; answer whether it was free. -/
def declare (registry : Registry) (category : Category) (name : String) : Bool × Registry :=
  if registry.isDeclared category name then (false, registry)
  else (true, registry.reserve category name)

/-- Add a declaration at the end of a category. -/
def emit (registry : Registry) (category : Category) (declaration : Declaration) : Registry :=
  { registry with emitted := registry.emitted.modify category (· ++ [declaration]) }

/-- The names that a generated name in a category must differ from. -/
def taken (registry : Registry) (category : Category) : List String :=
  registry.anonymous.map (·.2) ++ registry.declared.get category

/-- The first of a stem's numbered names that is not taken. Of the names with numbers up to the
count of taken names at least one is free. -/
def freshName (taken : List String) (stem : String) : String :=
  let names := (List.range (taken.length + 1)).map fun index => stem ++ toString index
  (names.find? fun name => !taken.contains name).getD stem

/-- The generated name for a key, made up at the key's first use. -/
def nameFor (registry : Registry) (key : AnonymousKey) : String × Registry :=
  match registry.anonymous.lookup key with
  | some name => (name, registry)
  | none =>
      let name := freshName (registry.taken key.category) key.stem
      (name, { registry with anonymous := registry.anonymous ++ [(key, name)] })

/-- A generated name in a category under the current header. Only with a key is it remembered. -/
def uniqueName (registry : Registry) (category : Category) (stem : String)
    (key : Option (List Int)) : String × Registry :=
  match key with
  | some key => registry.nameFor ⟨category, stem, registry.currentHeader, key⟩
  | none => (freshName (registry.taken category) stem, registry)

/-- Note that a declaration uses a type. -/
def refer (registry : Registry) (name : String) : Registry :=
  if registry.referenced.contains name then registry
  else { registry with referenced := registry.referenced ++ [name] }

/-- The referenced types that neither a type nor an enumeration declares. -/
def undeclaredTypes (registry : Registry) : List String :=
  registry.referenced.filter fun name =>
    !registry.isDeclared .types name && !registry.isDeclared .enumerations name

/-- The macro with a name, as it was declared first. -/
def constant? (registry : Registry) (name : String) : Option Constant :=
  (registry.emitted.constants.filterMap Declaration.constant?).find? fun constant =>
    constant.name == name

/-- The number of declarations in each category. -/
def counts (registry : Registry) : ByCategory Nat :=
  ⟨registry.emitted.constants.length, registry.emitted.types.length,
    registry.emitted.enumerations.length, registry.emitted.functions.length⟩

end Registry

end HeaderBindings
