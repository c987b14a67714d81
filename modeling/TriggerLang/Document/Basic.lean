import TriggerLang.Document.Identity
import TriggerLang.Document.Publish
import TriggerLang.Document.Strip

/-!
# Documents

A document is what a script is compiled to: its triggers, a guard that always holds, its
actions, and its identity.
-/

namespace TriggerLang

/-- A compiled script. -/
structure Document where
  identity : Identity
  triggers : List Fragment
  conditions : Fragment
  actions : List Fragment

namespace Document

/-- The guard of every document: truth equals truth. -/
def defaultConditions : Fragment :=
  .list [.mapping [("operator", .string "=="), ("operandType", .string booleanType)],
    .boolean true, .boolean true]

/-- The document with its actions published. -/
def publish (document : Document) : Document :=
  { document with actions := Fragment.publishAll document.actions }

/-- The document as a fragment, with its fields in the order in which it is written. -/
def toFragment (document : Document) : Fragment :=
  .mapping [
    ("isProtected", .boolean document.identity.isProtected),
    ("triggers", .list document.triggers),
    ("conditions", document.conditions),
    ("actions", .list document.actions),
    ("name", .string document.identity.name),
    ("parent", document.identity.parent),
    ("key", .string document.identity.key),
    ("order", .integer document.identity.order)]

/-- The document has a trigger or an action. -/
def hasOutput (document : Document) : Bool :=
  !document.triggers.isEmpty || !document.actions.isEmpty

end Document

end TriggerLang
