import TriggerLang.Document.Strip
import TriggerLang.Parse.Line
import TriggerLang.Render.Fragment
import TriggerLang.Typing.Mismatch

/-!
# Toolkits

A toolkit holds what a script is processed with: ways to parse a text, to check the
fragment that it stands for, to bind the script's own entity in it, and to render it.  The
usual toolkit does all of this with one catalog.
-/

namespace TriggerLang

/-- What a script is processed with. -/
structure Toolkit where
  parse : List Char → Except Rejection Fragment
  /-- The diagnostics of a fragment, read from a text, that should have a type. -/
  check : List Char → Fragment → String → List Diagnostic
  /-- What is kept of a fragment that is read for a side table. -/
  postProcess : SideTable → Fragment → Fragment
  /-- The renderer where a context brings no bare words. -/
  plainRenderer : Renderer

/-- A toolkit is given together with parts of another one. -/
inductive ToolkitError where
  | ambiguous
deriving DecidableEq, Repr

/-- The wording of a toolkit error. -/
def ToolkitError.message : ToolkitError → String
  | .ambiguous => "Pass either services or catalog/options, not both"

namespace Toolkit

/-- The usual toolkit for a scope. -/
def ofScope (scope : Parse.Scope) : Toolkit where
  parse source := (parseLine scope source).mapError (Parse.Failure.rejection source)
  check := checkType scope.catalog
  postProcess := Fragment.postProcess
  plainRenderer := ⟨scope.catalog, []⟩

/-- The toolkit that is given, or else the usual one for what is given of a scope. -/
def choose (given : Option Toolkit) (catalog : Option Catalog)
    (declarations : Option Parse.Declarations) : Except ToolkitError Toolkit :=
  match given with
  | none => .ok (.ofScope ⟨catalog.getD .builtin, declarations.getD {}⟩)
  | some toolkit =>
    if catalog.isSome || declarations.isSome then .error .ambiguous else .ok toolkit

end Toolkit

end TriggerLang
