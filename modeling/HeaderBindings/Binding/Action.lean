/-
Module: HeaderBindings.Binding.Action
Purpose: What a claimed node is turned into.
Main exports: Action, Action.run
-/
import HeaderBindings.Binding.Enumeration
import HeaderBindings.Binding.Record
import HeaderBindings.Binding.Simple

namespace HeaderBindings

/-- The actions of the default grammar. -/
inductive Action where
  | defineConstant
  | declareAlias
  | declareRecord
  | declareTypedefRecord
  | declareEnumeration
  | declareTypedefEnumeration
  | declareFunction
deriving Repr, DecidableEq

namespace Action

/-- A step that looks at the claimed node. -/
def withNode (step : Cursor → List Capture → Run Unit) (node : Option Cursor)
    (captures : List Capture) : Run Unit :=
  match node with
  | some cursor => step cursor captures
  | none => throw .missingNode

/-- Carry out an action for a claimed node and its captures. -/
def run (action : Action) (node : Option Cursor) (captures : List Capture) : Run Unit :=
  match action with
  | defineConstant => HeaderBindings.defineConstant captures
  | declareAlias => HeaderBindings.declareAlias captures
  | declareRecord => withNode HeaderBindings.declareRecord node captures
  | declareTypedefRecord => withNode HeaderBindings.declareTypedefRecord node captures
  | declareEnumeration => withNode HeaderBindings.declareEnumeration node captures
  | declareTypedefEnumeration => withNode HeaderBindings.declareTypedefEnumeration node captures
  | declareFunction => HeaderBindings.declareFunction captures

end Action

end HeaderBindings
