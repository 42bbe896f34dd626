/-
Module: HeaderBindings.Binding.Simple
Purpose: Actions for macros, type definitions and function declarations.
Main exports: defineConstant, declareAlias, declareFunction
-/
import HeaderBindings.Binding.Run

namespace HeaderBindings

open Spelling

/-- Declare a macro whose text is a literal. -/
def defineConstant : List Capture → Run Unit
  | first :: second :: _ => do
      let name := bindingName first.text
      match literal? second.text with
      | none => pure ()
      | some value =>
          if name.isEmpty then pure ()
          else if ← Run.declare .constants name then
            Run.emit .constants (.constant ⟨name, value, (← get).currentHeader⟩)
  | _ => pure ()

/-- The expression that an opaque alias stands for. -/
def opaqueTarget : TypeExpr := .named "ctypes.Structure"

/-- Declare a further name of a type. A name for the type of the same name is opaque. -/
def declareAlias : List Capture → Run Unit
  | first :: second :: _ => do
      let name := bindingName second.text
      if name.isEmpty then pure ()
      else if ← Run.declare .types name then
        let (base, depth) := splitPointer first.text
        if depth == 0 && bindingName base == name then
          Run.emit .types (.typeAlias ⟨name, opaqueTarget, (← get).currentHeader, true⟩)
        else
          let target ← Run.target first.text
          Run.emit .types (.typeAlias ⟨name, target, (← get).currentHeader, false⟩)
  | _ => pure ()

/-- The parameters spelled by captures, after some parameters. A type is followed by the identifier
that it belongs to, or stands for a parameter without name; `void` without name is none. -/
def readParameters (before : List Parameter) : List Capture → Run (List Parameter)
  | [] => pure before
  | type :: name :: rest =>
      if name.kind == "identifier" then do
        readParameters (← addParameter before type.text (bindingName name.text)) rest
      else do
        readParameters (← addParameter before type.text "") (name :: rest)
  | [type] => addParameter before type.text ""
where
  /-- Parameters with one more, unless it is `void` without name. -/
  addParameter (before : List Parameter) (type name : String) : Run (List Parameter) :=
    if type == "void" && name.isEmpty then pure before
    else do
      let name := if name.isEmpty then "arg" ++ toString before.length else name
      return before ++ [⟨name, ← Run.target type⟩]

/-- Declare the signature of a function: its type, its name, and its parameters. -/
def declareFunction : List Capture → Run Unit
  | type :: spelled :: parameters => do
      let name := bindingName spelled.text
      if name.isEmpty then pure ()
      else if ← Run.declare .functions name then
        let returnType ← Run.resolve type.text
        let parameters ← readParameters [] parameters
        Run.emit .functions
          (.function ⟨name, spelled.text, (← get).currentHeader, returnType, parameters⟩)
  | _ => pure ()

end HeaderBindings
