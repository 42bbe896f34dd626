/-
Module: HeaderBindings.Binding.Module
Purpose: The text of a generated module: one block for each category, in an order in which names are
  bound before they are used.
Main exports: Module.block, Module.render
-/
import HeaderBindings.Binding.Registry
import HeaderBindings.Text.Quoted

namespace HeaderBindings.Module

open Spelling Text

/-! ### Declarations -/

/-- Lines as one text. -/
def lines (texts : List String) : String := String.intercalate "\n" texts

/-- The binding of a macro. -/
def constantText (constant : Constant) : String :=
  constant.name ++ " = " ++ constant.value

/-- The class of an enumeration and the bindings of its members. -/
def enumerationText (enumeration : Enumeration) : String :=
  lines <| ["class " ++ enumeration.name ++ "(ctypes.c_int):", "    pass"]
    ++ (if enumeration.members.isEmpty then [] else [""])
    ++ enumeration.members.map fun member => member.name ++ " = " ++ member.value

/-- The class of a record, without its fields. -/
def recordText (record : Record) : String :=
  let base := if record.isUnion then "ctypes.Union" else "ctypes.Structure"
  lines ["class " ++ record.name ++ "(" ++ base ++ "):",
    "    _importc_ = " ++ quote record.spelling,
    "    _header_ = " ++ quote record.header]

/-- The class of an opaque type. -/
def opaqueText (typeAlias : Alias) : String :=
  lines ["class " ++ typeAlias.name ++ "(" ++ typeAlias.target.render ++ "):",
    "    _importc_ = " ++ quote typeAlias.name,
    "    _header_ = " ++ quote typeAlias.header]

/-- The empty class of a type that is used but not declared. -/
def placeholderText (name : String) : String :=
  lines ["class " ++ name ++ "(ctypes.Structure):", "    pass"]

/-- The binding of a further name of a type. -/
def aliasText (typeAlias : Alias) : String :=
  typeAlias.name ++ " = " ++ typeAlias.target.render

/-- The type of a field: nothing is stored as an untyped pointer, and an array has its lengths after
the type of its elements. -/
def fieldType (field : Field) : String :=
  let element := field.type.render
  let element := if element == "None" then "ctypes.c_void_p" else element
  match field.length with
  | some length => element ++ " * " ++ length
  | none => element

/-- The line of a field. -/
def fieldText (field : Field) : String :=
  let width := match field.bits with
    | some bits => ", " ++ bits
    | none => ""
  "    (" ++ quote field.name ++ ", " ++ fieldType field ++ width ++ "),"

/-- The binding of a record's fields. -/
def fieldsText (record : Record) : String :=
  if record.fields.isEmpty then record.name ++ "._fields_ = []"
  else lines <| [record.name ++ "._fields_ = ["] ++ record.fields.map fieldText ++ ["]"]

/-- The binding of a function, under a comment that shows its parameters. -/
def functionText (function : Function) : String :=
  let names := String.intercalate ", " (function.parameters.map (·.name))
  let types := String.intercalate ", " (function.parameters.map (·.type.render))
  let returned := match function.returnType with
    | some type => if type.render.isEmpty then "None" else type.render
    | none => "None"
  lines ["# " ++ function.spelling ++ "(" ++ names ++ ")",
    function.name ++ " = _bind(" ++ quote function.spelling ++ ", [" ++ types ++ "], "
      ++ returned ++ ")"]

/-! ### Blocks -/

/-- The class that a declared type has, if it has one of its own. -/
def classText? : Declaration → Option String
  | .record record => some (recordText record)
  | .typeAlias typeAlias => if typeAlias.isOpaque then some (opaqueText typeAlias) else none
  | _ => none

/-- The binding of a declared type that is only a further name. -/
def aliasText? : Declaration → Option String
  | .typeAlias typeAlias => if typeAlias.isOpaque then none else some (aliasText typeAlias)
  | _ => none

/-- The classes of types: first of those that are only used, then of those that are declared. -/
def classTexts (registry : Registry) : List String :=
  registry.undeclaredTypes.map placeholderText ++ registry.emitted.types.filterMap classText?

/-- The bindings of further names of types. -/
def aliasTexts (registry : Registry) : List String :=
  registry.emitted.types.filterMap aliasText?

/-- The bindings of the fields of records. -/
def fieldsTexts (registry : Registry) : List String :=
  (registry.emitted.types.filterMap Declaration.record?).map fieldsText

/-- Texts with a separator between neighbours, as one part if there are any. -/
def joined (separator : String) (texts : List String) : List String :=
  if texts.isEmpty then [] else [String.intercalate separator texts]

/-- The block of types: classes, further names, fields. Records may so refer to one another and to
names that are declared after them. -/
def typesBlock (registry : Registry) : String :=
  String.intercalate "\n\n\n" <| joined "\n\n\n" (classTexts registry)
    ++ joined "\n" (aliasTexts registry) ++ joined "\n\n" (fieldsTexts registry)

/-- The block of a category; it is empty if there is nothing to bind. -/
def block (registry : Registry) : Category → String
  | .constants => lines <|
      (registry.emitted.constants.filterMap Declaration.constant?).map constantText
  | .enumerations => String.intercalate "\n\n\n" <|
      (registry.emitted.enumerations.filterMap Declaration.enumeration?).map enumerationText
  | .types => typesBlock registry
  | .functions => String.intercalate "\n\n" <|
      (registry.emitted.functions.filterMap Declaration.function?).map functionText

/-! ### The module -/

/-- The title of a category's block. -/
def title : Category → String
  | .constants => "Constants"
  | .enumerations => "Enumerations"
  | .types => "Types"
  | .functions => "Procedures"

/-- The line around a title. -/
def rule : String := "# " ++ String.ofList (List.replicate 76 '=')

/-- A title between two lines. -/
def banner (text : String) : String := lines [rule, "# " ++ text, rule]

/-- The order of the blocks. -/
def blockOrder : List Category := [.constants, .enumerations, .types, .functions]

/-- A block under its banner, if there is anything in it. -/
def titledBlock? (registry : Registry) (category : Category) : Option String :=
  let body := block registry category
  if body.isEmpty then none else some (banner (title category) ++ "\n\n" ++ body)

/-- The opening comment, with the headers that have a name. -/
def opening (registry : Registry) : String :=
  let headers := registry.headers.filter fun header => !header.isEmpty
  lines <| ["# Generated by treebind. Do not edit."]
    ++ (if headers.isEmpty then [] else ["# Sources:"])
    ++ headers.map fun header => "#   " ++ header

/-- The name of a library as an argument; none and the empty name are the running process. -/
def libraryText : Option String → String
  | some name => if name.isEmpty then "None" else quote name
  | none => "None"

/-- The function with which a module binds functions. -/
def bindHelper : String :=
  lines ["def _bind(name, argtypes, restype):",
    "    func = getattr(_lib, name, None)",
    "    if func is not None:",
    "        func.argtypes = argtypes",
    "        func.restype = restype",
    "    return func"]

/-- The text of a generated module that loads a library. -/
def render (registry : Registry) (library : Option String) : String :=
  let sections := [opening registry, "import ctypes",
      "_lib = ctypes.CDLL(" ++ libraryText library ++ ")"]
    ++ (if registry.emitted.functions.isEmpty then [] else [bindHelper])
    ++ blockOrder.filterMap (titledBlock? registry)
  String.intercalate "\n\n\n" sections ++ "\n"

end HeaderBindings.Module
