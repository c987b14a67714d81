import TriggerLang.Fragment.Basic

/-!
# Publishing actions

A published action names its function under `type` instead of `function`.  The actions
in the branches of a block are published with it; arguments and conditions are not.
-/

namespace TriggerLang.Fragment

/-- The field holds the actions of a branch. -/
def isBranchField (field : String) : Bool :=
  field == "then" || field == "else"

mutual

/-- The published form of an action. -/
def publish : Fragment → Fragment
  | .mapping fields => .mapping (Table.ofEntries (publishFields fields))
  | fragment => fragment

/-- The published forms of actions. -/
def publishAll : List Fragment → List Fragment
  | [] => []
  | action :: rest => action.publish :: publishAll rest

/-- The published forms of the fields of an action. -/
def publishFields : Fields → Fields
  | [] => []
  | (field, value) :: rest =>
    (if field = "function" then
      ("type", value)
    else
      (field,
        match value with
        | .list actions => if isBranchField field then .list (publishAll actions) else value
        | _ => value)) ::
    publishFields rest

end

end TriggerLang.Fragment
