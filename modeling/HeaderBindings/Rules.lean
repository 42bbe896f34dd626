/-
Module: HeaderBindings.Rules
Purpose: The default grammar of C and C++ headers: which shapes of nodes are claimed, and by which
  actions.
Main exports: Rules.textOf?, Rules.fragments, Rules.build, Rules.table, Rules.alphabet
-/
import HeaderBindings.Binding.Action
import HeaderBindings.Pattern.Compose
import HeaderBindings.Table

namespace HeaderBindings.Rules

/-! ### Shared parts -/

/-- A type: a name or a basic type, a sized type, a tagged type without body; each at most once. -/
def typeText : String := "
        (primitive_type|type_identifier?)
        (sized_type_specifier?
         (primitive_type?)
        )
        (struct_specifier|union_specifier|enum_specifier?
         (type_identifier)
        )
    "

/-- Declarators of fields: names, pointers, arrays and widths of bit fields, one or more. -/
def fieldsText : String := "
        (field_identifier|pointer_declarator|array_declarator|bitfield_clause+
         (type_qualifier*)
         (^pointer_declarator|array_declarator?)
         (field_identifier?)
         (identifier|number_literal?)
        )
    "

/-- A function declarator with the parameters in it, if there is one. -/
def functionDeclaratorText : String := "
        (function_declarator?
         (identifier)
         (parameter_list
          (parameter_declaration*
           (type_qualifier*)
           @type
           (type_qualifier*)
           (identifier?)
           (pointer_declarator?
            (type_qualifier*)
            (^pointer_declarator?)
            (identifier?)
           )
          )
         )
        )
    "

/-! ### Shapes that are claimed -/

/-- A macro with a text. -/
def macroText : String := "
        (preproc_def
         (identifier)
         (preproc_arg)
        )
    "

/-- A type definition without body. -/
def typedefText : String := "
        (type_definition
         (type_qualifier*)
         @type
         (type_identifier?)
         (pointer_declarator?
          (type_qualifier*)
          (^pointer_declarator?)
          (type_identifier?)
         )
        )
    "

/-- A struct or a union with fields, tagged or not. -/
def recordText : String := "
        (struct_specifier|union_specifier
         (type_identifier?)
         (field_declaration_list
          (field_declaration+
           (type_qualifier*)
           @type
           @fields
          )
         )
        )
    "

/-- An enumeration with enumerators, tagged or not. -/
def enumerationText : String := "
        (enum_specifier
         (type_identifier?)
         (enumerator_list
          (enumerator+
           (identifier)
           (number_literal|char_literal|identifier|parenthesized_expression|binary_expression|unary_expression|math_expression|bitwise_expression|shift_expression?)
          )
         )
        )
    "

/-- A declaration, with a function declarator or a pointer around one. -/
def functionText : String := "
        (declaration
         (storage_class_specifier?)
         (type_qualifier?)
         @type
         @func
         (pointer_declarator?
          (^pointer_declarator?)
          @func
         )
        )
    "

/-- The shared parts by name; a part may refer to those before it. -/
def fragmentTexts : List (String × String) :=
  [("type", typeText), ("fields", fieldsText), ("func", functionDeclaratorText)]

/-- The claimed shapes by name. -/
def shapeTexts : List (String × String) :=
  [("define", macroText), ("typedef", typedefText), ("struct", recordText),
   ("enum", enumerationText), ("function", functionText)]

/-- The text of a shape or of a shared part. -/
def textOf? (name : String) : Option String :=
  (shapeTexts.lookup name).or (fragmentTexts.lookup name)

/-! ### The grammar -/

/-- The shared parts, read. -/
def fragments : Except PatternError Pattern.Fragments :=
  fragmentTexts.foldlM (fun known entry => known.define entry.1 entry.2) []

/-- A type definition around the body of a pattern, with the defined name at its end. -/
def typedefOf (pattern : Pattern) : Except PatternError Pattern := do
  let name ← Pattern.parseFragment "(type_identifier)" []
  Pattern.compose "type_definition" [[pattern], name] .one

/-- The claimed shapes with their actions, in order of precedence. -/
def shapes : Except PatternError (List (Pattern × Action)) := do
  let known ← fragments
  let defined ← Pattern.parse macroText known
  let typedefined ← Pattern.parse typedefText known
  let record ← Pattern.parse recordText known
  let enumeration ← Pattern.parse enumerationText known
  let function ← Pattern.parse functionText known
  return [(defined, .defineConstant), (typedefined, .declareAlias), (record, .declareRecord),
    (← typedefOf record, .declareTypedefRecord), (enumeration, .declareEnumeration),
    (← typedefOf enumeration, .declareTypedefEnumeration), (function, .declareFunction)]

/-- Register shapes one after another, up to the first that fails. -/
def registerAll : Table Action → Alphabet → List (Pattern × Action) →
    Except PatternError (Table Action) × Alphabet
  | table, alphabet, [] => (.ok table, alphabet)
  | table, alphabet, (pattern, action) :: rest =>
      match table.register alphabet pattern (some action) with
      | (.error error, extended) => (.error error, extended)
      | (.ok table, extended) => registerAll table extended rest

/-- What registering shapes comes to: the table, unless one of them failed, and the alphabet. -/
abbrev Registered := Except PatternError (Table Action) × Alphabet

/-- Register shapes that were read, if they could be. -/
def registerRead : Except PatternError (List (Pattern × Action)) → Registered
  | .error error => (.error error, .empty)
  | .ok shapes => registerAll .empty .empty shapes

/-- The registered table, without patterns if a shape failed. -/
def registeredTable (registered : Registered) : Table Action :=
  registered.1.toOption.getD .empty

/-- The alphabet after shapes were registered. -/
def registeredAlphabet (registered : Registered) : Alphabet := registered.2

/-- The default grammar, and the alphabet of its kinds. -/
def build : Registered := registerRead shapes

/-- The table of the default grammar. -/
def table : Table Action := registeredTable build

/-- The alphabet of the default grammar. -/
def alphabet : Alphabet := registeredAlphabet build

end HeaderBindings.Rules
