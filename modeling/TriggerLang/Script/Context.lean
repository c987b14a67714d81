import TriggerLang.Document.SideTable
import TriggerLang.Script.Substitution

/-!
# Contexts

A context says what a script is read for: the type that its values should have, the
substitutions for every type, and the side table of the entity it belongs to.
-/

namespace TriggerLang

/-- What a script is read for. -/
structure Context where
  /-- The type that values should have; empty if any type will do. -/
  defaultReturnType : String := ""
  typeSubstitutions : List (String × List Substitution) := []
  sideTable : SideTable := {}

namespace Context

/-- The substitutions for the type that values should have. -/
def substitutions (context : Context) : List Substitution :=
  if context.defaultReturnType = "" then
    []
  else
    (context.typeSubstitutions.lookup context.defaultReturnType).getD []

/-- The bare words by the strings that they stand for; of two words for one string the last
one counts. -/
def bareWords (context : Context) : List (String × String) :=
  Table.ofEntries (context.substitutions.map fun s => (s.replacement, s.matchToken))

end Context

end TriggerLang
