/-
Module: HeaderBindings.Binding.Declaration
Purpose: Declarations of a generated module.
Main exports: Category, ByCategory, Constant, Alias, Field, Record, Enumerator, Enumeration,
  Parameter, Function, Declaration
-/
import HeaderBindings.Spelling.TypeExpr

namespace HeaderBindings

open Spelling

/-- The categories of declarations; each has names of its own. -/
inductive Category where
  | constants
  | types
  | enumerations
  | functions
deriving Repr, DecidableEq

namespace Category

/-- All categories in order. -/
def all : List Category := [constants, types, enumerations, functions]

/-- The short name of a category. -/
def label : Category → String
  | constants => "const"
  | types => "type"
  | enumerations => "enum"
  | functions => "proc"

/-- The category with a short name. -/
def ofLabel? (text : String) : Option Category :=
  all.find? fun category => category.label == text

end Category

/-- One value for each category. -/
structure ByCategory (α : Type) where
  constants : α
  types : α
  enumerations : α
  functions : α
deriving Repr, DecidableEq

namespace ByCategory

variable {α : Type}

/-- The same value for each category. -/
def const (value : α) : ByCategory α := ⟨value, value, value, value⟩

/-- The value of a category. -/
def get (values : ByCategory α) : Category → α
  | .constants => values.constants
  | .types => values.types
  | .enumerations => values.enumerations
  | .functions => values.functions

/-- The values with that of a category changed. -/
def modify (values : ByCategory α) (category : Category) (change : α → α) : ByCategory α :=
  match category with
  | .constants => { values with constants := change values.constants }
  | .types => { values with types := change values.types }
  | .enumerations => { values with enumerations := change values.enumerations }
  | .functions => { values with functions := change values.functions }

@[simp] theorem get_const (value : α) (category : Category) :
    (const value).get category = value := by
  cases category <;> rfl

@[simp] theorem get_modify_self (values : ByCategory α) (category : Category) (change : α → α) :
    (values.modify category change).get category = change (values.get category) := by
  cases category <;> rfl

theorem get_modify_of_ne (values : ByCategory α) {category other : Category} (change : α → α)
    (different : other ≠ category) :
    (values.modify category change).get other = values.get other := by
  cases category <;> cases other <;> first | rfl | exact absurd rfl different

end ByCategory

/-! ### The kinds of declarations

Each declaration keeps the header that it comes from. -/

/-- A macro with a literal value. -/
structure Constant where
  name : String
  value : String
  header : String
deriving Repr, DecidableEq

/-- A further name of a type; an opaque one stands for a type whose contents are not known. -/
structure Alias where
  name : String
  target : TypeExpr
  header : String
  isOpaque : Bool
deriving Repr, DecidableEq

/-- A field of a record, with the lengths of an array or the width of a bit field, if it is one. -/
structure Field where
  name : String
  type : TypeExpr
  length : Option String
  bits : Option String
deriving Repr, DecidableEq

/-- A struct or a union, with its C spelling. -/
structure Record where
  name : String
  spelling : String
  header : String
  isUnion : Bool
  fields : List Field
deriving Repr, DecidableEq

/-- A constant of an enumeration. -/
structure Enumerator where
  name : String
  value : String
deriving Repr, DecidableEq

/-- An enumeration and its constants. -/
structure Enumeration where
  name : String
  header : String
  members : List Enumerator
deriving Repr, DecidableEq

/-- A parameter of a function. -/
structure Parameter where
  name : String
  type : TypeExpr
deriving Repr, DecidableEq

/-- The signature of a function, with its C name. Nothing is returned if there is no type. -/
structure Function where
  name : String
  spelling : String
  header : String
  returnType : Option TypeExpr
  parameters : List Parameter
deriving Repr, DecidableEq

/-- A declaration of any kind. -/
inductive Declaration where
  | constant (constant : Constant)
  | typeAlias (typeAlias : Alias)
  | record (record : Record)
  | enumeration (enumeration : Enumeration)
  | function (function : Function)
deriving Repr, DecidableEq

namespace Declaration

/-- The name that a declaration binds. -/
def name : Declaration → String
  | constant c => c.name
  | typeAlias a => a.name
  | record r => r.name
  | enumeration e => e.name
  | function f => f.name

/-- The header that a declaration comes from. -/
def header : Declaration → String
  | constant c => c.header
  | typeAlias a => a.header
  | record r => r.header
  | enumeration e => e.header
  | function f => f.header

/-- The macro that a declaration is, if it is one. -/
def constant? : Declaration → Option Constant
  | constant c => some c
  | _ => none

/-- The alias that a declaration is, if it is one. -/
def typeAlias? : Declaration → Option Alias
  | typeAlias a => some a
  | _ => none

/-- The record that a declaration is, if it is one. -/
def record? : Declaration → Option Record
  | record r => some r
  | _ => none

/-- The enumeration that a declaration is, if it is one. -/
def enumeration? : Declaration → Option Enumeration
  | enumeration e => some e
  | _ => none

/-- The function that a declaration is, if it is one. -/
def function? : Declaration → Option Function
  | function f => some f
  | _ => none

end Declaration

end HeaderBindings
