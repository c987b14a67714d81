import TriggerLang.Script.Context
import TriggerLang.Script.Toolkit

/-!
# Evaluating expressions

An expression is evaluated in four steps: bare words are replaced, the text is parsed,
the fragment is checked against the type it should have, and the script's own entity is
bound.  The regions of the diagnostics are those of the text after the replacement, taken
as a text of its own.
-/

namespace TriggerLang

/-- What an expression is evaluated to. -/
structure Outcome where
  /-- The fragment, if the expression could be parsed. -/
  fragment : Option Fragment
  diagnostics : List Diagnostic

namespace Outcome

/-- The fragment, if nothing is wrong with it. -/
def accepted? (outcome : Outcome) : Option Fragment :=
  if outcome.diagnostics.isEmpty then outcome.fragment else none

end Outcome

namespace Rejection

/-- The diagnostic of a text that was rejected. -/
def diagnostic (source : List Char) : Rejection → Diagnostic
  | .malformed message region =>
    .saying .unexpectedToken (region.getD (.ofLine source)) message
  | .undefined name =>
    let region :=
      match findIdentifier? source name with
      | some token => token.region source
      | none => .ofLine source
    .saying .undefinedName region (Parse.undefinedMessage name)

end Rejection

/-- Evaluates a text that stands for itself. -/
def evaluateSource (toolkit : Toolkit) (context : Context) (source : List Char)
    (expected : String) : Outcome :=
  match toolkit.parse source with
  | .error rejection => ⟨none, [rejection.diagnostic source]⟩
  | .ok fragment =>
    if fragment.isPrimitive then
      ⟨some fragment, checkPrimitive source fragment expected⟩
    else
      ⟨some (toolkit.postProcess context.sideTable fragment),
        toolkit.check source fragment expected⟩

/-- Evaluates a text in which bare words stand for strings. -/
def evaluate (toolkit : Toolkit) (context : Context) (text : List Char) (expected : String) :
    Outcome :=
  evaluateSource toolkit context (Substitution.applyAll context.substitutions text) expected

/-- The diagnostics of a line's text, placed on the line. -/
def placeAll (line : Text.Line) (indent : Nat) (diagnostics : List Diagnostic) :
    List Diagnostic :=
  diagnostics.map (·.place line.number line.number_pos indent)

end TriggerLang
