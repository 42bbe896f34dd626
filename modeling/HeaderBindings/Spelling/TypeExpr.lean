/-
Module: HeaderBindings.Spelling.TypeExpr
Purpose: Expressions of a generated module that name types, and the C spellings they stand for.
Main exports: Spelling.TypeExpr, Spelling.TypeExpr.render, Spelling.splitPointer,
  Spelling.baseType, Spelling.typeExpr, Spelling.declaredName
-/
import HeaderBindings.Spelling.Identifier

namespace HeaderBindings.Spelling

open Text

/-- An expression that names a type: a name, or a pointer to what another expression names. -/
inductive TypeExpr where
  | named (text : String)
  | pointer (target : TypeExpr)
deriving Repr, DecidableEq

namespace TypeExpr

/-- The text of a type expression. -/
def render : TypeExpr → String
  | named text => text
  | pointer target => "ctypes.POINTER(" ++ target.render ++ ")"

/-- The name inside all pointers. -/
def baseName : TypeExpr → String
  | named text => text
  | pointer target => target.baseName

/-- A type under a number of further pointers. -/
def pointers (target : TypeExpr) : Nat → TypeExpr
  | 0 => target
  | depth + 1 => pointer (target.pointers depth)

/-- The expression that stands where no value is. -/
def noValue : TypeExpr := named "None"

end TypeExpr

/-! ### Words of a C type -/

/-- C types that a generated module has a name for. -/
def scalarNames : List (String × String) :=
  [("char", "ctypes.c_char"), ("signed char", "ctypes.c_byte"), ("unsigned char", "ctypes.c_ubyte"),
   ("short", "ctypes.c_short"), ("unsigned short", "ctypes.c_ushort"), ("int", "ctypes.c_int"),
   ("unsigned int", "ctypes.c_uint"), ("long", "ctypes.c_long"),
   ("unsigned long", "ctypes.c_ulong"), ("long long", "ctypes.c_longlong"),
   ("unsigned long long", "ctypes.c_ulonglong"), ("float", "ctypes.c_float"),
   ("double", "ctypes.c_double"), ("long double", "ctypes.c_longdouble"),
   ("bool", "ctypes.c_bool"), ("_Bool", "ctypes.c_bool"), ("size_t", "ctypes.c_size_t"),
   ("ssize_t", "ctypes.c_ssize_t"), ("ptrdiff_t", "ctypes.c_ssize_t"),
   ("intptr_t", "ctypes.c_ssize_t"), ("uintptr_t", "ctypes.c_size_t"),
   ("wchar_t", "ctypes.c_wchar"), ("int8_t", "ctypes.c_int8"), ("int16_t", "ctypes.c_int16"),
   ("int32_t", "ctypes.c_int32"), ("int64_t", "ctypes.c_int64"), ("uint8_t", "ctypes.c_uint8"),
   ("uint16_t", "ctypes.c_uint16"), ("uint32_t", "ctypes.c_uint32"),
   ("uint64_t", "ctypes.c_uint64")]

/-- C types whose pointers have a name of their own. -/
def pointerNames : List (String × String) :=
  [("void", "ctypes.c_void_p"), ("char", "ctypes.c_char_p"), ("wchar_t", "ctypes.c_wchar_p")]

/-- Words that do not change which type is named. -/
def qualifiers : List String :=
  ["const", "volatile", "restrict", "struct", "union", "enum"]

/-- Words that spell sized types in any order. -/
def sizeWords : List String :=
  ["signed", "unsigned", "short", "long", "int", "char", "double"]

/-- The words of a C type without its qualifiers. -/
def typeWords (text : List Char) : List String :=
  ((words text).map String.ofList).filter fun word => !qualifiers.contains word

/-- The usual spelling of a type given by size words: `char` wins over `short`, `short` over `long`,
two `long` over one, and `signed` shows with `char` only. -/
def sizedSpelling (sizes : List String) : String :=
  let base :=
    if sizes.contains "char" then "char"
    else if sizes.contains "short" then "short"
    else if sizes.count "long" ≥ 2 then "long long"
    else if sizes.contains "long" then
      if sizes.contains "double" then "long double" else "long"
    else if sizes.contains "double" then "double"
    else "int"
  if sizes.contains "char" && sizes.contains "signed" then "signed char"
  else if sizes.contains "unsigned" then "unsigned " ++ base else base

/-! ### From C types to type expressions -/

/-- Size words whose usual spelling is no C type. -/
structure UnknownSize where
  spelling : String
deriving Repr, DecidableEq

/-- The text before trailing stars, and the number of stars, given the text last character
first. -/
def dropStars : List Char → List Char × Nat
  | [] => ([], 0)
  | c :: rest =>
      if c == '*' then
        let inner := dropStars rest
        (inner.1, inner.2 + 1)
      else if isBlank c then dropStars rest
      else (c :: rest, 0)

/-- A C type without its trailing stars and outer blanks, and the number of stars. -/
def splitPointerChars (text : List Char) : List Char × Nat :=
  let split := dropStars (strip text).reverse
  (split.1.reverse, split.2)

/-- A C type without its trailing stars and outer blanks, and the number of stars. -/
def splitPointer (text : String) : String × Nat :=
  let split := splitPointerChars text.toList
  (String.ofList split.1, split.2)

/-- The name of a type given by its words; none for `void`. -/
def nameOfWords (names : List String) : Except UnknownSize (Option String) :=
  match names.getLast? with
  | none => .ok (some "ctypes.c_int")
  | some last =>
      let spelled := String.intercalate " " names
      if spelled == "void" then .ok none
      else match scalarNames.lookup spelled with
        | some name => .ok (some name)
        | none =>
            if names.all sizeWords.contains then
              match scalarNames.lookup (sizedSpelling names) with
              | some name => .ok (some name)
              | none => .error ⟨sizedSpelling names⟩
            else .ok (some (bindingName last))

/-- The name of a C type without pointers; none for `void`. -/
def baseType (text : String) : Except UnknownSize (Option String) :=
  nameOfWords (typeWords text.toList)

/-- The type expression of a C type; none for `void` without a pointer. -/
def typeExpr (text : String) : Except UnknownSize (Option TypeExpr) :=
  let (body, depth) := splitPointerChars text.toList
  let names := typeWords body
  match depth with
  | 0 => (nameOfWords names).map (·.map .named)
  | inner + 1 =>
      match pointerNames.lookup (String.intercalate " " names) with
      | some name => .ok (some ((TypeExpr.named name).pointers inner))
      | none => (nameOfWords names).map fun name =>
          some ((TypeExpr.named (name.getD "None")).pointers depth)

/-- The declared type that a C type refers to, whatever its pointers; none for `void` and for types
that a generated module has a name for. -/
def declaredName (text : String) : Except UnknownSize (Option String) :=
  (nameOfWords (typeWords (splitPointerChars text.toList).1)).map fun name =>
    name.filter fun name => !name.startsWith "ctypes."

end HeaderBindings.Spelling
