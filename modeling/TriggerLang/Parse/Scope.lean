import TriggerLang.Catalog.Builtin

/-!
# Scopes

A scope says what the names of a script mean: the functions and triggers of a catalog,
and the variables that are declared beside it.
-/

namespace TriggerLang.Parse

/-- The names that are declared beside a catalog. -/
structure Declarations where
  /-- The variables with their types; one without a type is not declared. -/
  variableTypes : List (String × Option String) := []
  /-- Triggers need not be listed in the catalog. -/
  allowUnknownTriggers : Bool := false

/-- The type of a declared variable. -/
def Declarations.variableType? (declarations : Declarations) (name : String) : Option String :=
  (declarations.variableTypes.lookup name).join

/-- What the names of a script mean. -/
structure Scope where
  catalog : Catalog := .builtin
  declarations : Declarations := {}

/-- A script may declare the trigger: it is listed, or nothing is, or anything goes. -/
def Scope.knowsTrigger (scope : Scope) (name : String) : Bool :=
  scope.catalog.triggers.isEmpty || scope.catalog.triggers.contains name ||
    scope.declarations.allowUnknownTriggers

end TriggerLang.Parse
