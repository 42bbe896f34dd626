/-
Module: HeaderBindings.Mode
Purpose: The language that a header is read as.
Main exports: Mode, Mode.ofName?, Mode.ofSetting
-/

namespace HeaderBindings

/-- The language of a header. -/
inductive Mode where
  | c
  | cpp
deriving Repr, DecidableEq

namespace Mode

/-- The name of a language. -/
def name : Mode → String
  | c => "c"
  | cpp => "cpp"

/-- The language with a name. -/
def ofName? (text : String) : Option Mode :=
  if text == "c" then some c else if text == "cpp" then some cpp else none

/-- The language of a setting. Upper-case letters are allowed; C is the default. -/
def ofSetting (text : Option String) : Mode :=
  ((text.map String.toLower).bind ofName?).getD c

end Mode

end HeaderBindings
