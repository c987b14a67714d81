import TriggerLang.Render.Fragment
import TriggerLang.Text.Line

/-!
# Rendering documents

A document is rendered line by line: a line for every trigger, then the actions, each
under the lines of its comment.  A block takes a line for its condition, the lines of its
branches, indented by one level, and a closing line; the second branch is left out if it
is empty.  The function of an action may stand under `type` as in a published document,
or under `function` as parsing leaves it.
-/

namespace TriggerLang.Renderer

/-- The white space at the start of a line of a level. -/
def indentation (depth : Nat) : List Char :=
  List.replicate (2 * depth) ' '

/-- The lines of the comment of an action. -/
def commentLines (depth : Nat) (fields : Fragment.Fields) : List (List Char) :=
  match fields.lookup "comment" with
  | some comment =>
    if comment.isTruthy then
      (Text.splitAt '\n' comment.plain.toList).map fun line =>
        indentation depth ++ '/' :: '/' :: ' ' :: line
    else
      []
  | none => []

/-- The fields are those of a block. -/
def isBlock (fields : Fragment.Fields) : Bool :=
  (match fields.lookup "type" with
    | some (.string kind) => kind == "condition"
    | _ => false) &&
  (fields.lookup "then").isSome

/-- The fields of an action with its function under `function`. -/
def unpublish (fields : Fragment.Fields) : Fragment.Fields :=
  if (fields.lookup "function").isSome then
    fields
  else
    fields.map fun field => if field.1 = "type" then ("function", field.2) else field

/-- The line of an action that is no block. -/
def actionLine (renderer : Renderer) (depth : Nat) (action : Fragment) :
    Except RenderError (List Char) :=
  (renderer.render action).map (indentation depth ++ ·)

/-- The line that a block starts with. -/
def blockLine (renderer : Renderer) (depth : Nat) (condition : Fragment) :
    Except RenderError (List Char) :=
  (renderer.render condition).map fun text =>
    indentation depth ++ if text.isEmpty then "if".toList else "if ".toList ++ text

mutual

/-- The lines of an action. -/
def actionLines (renderer : Renderer) (depth : Nat) (action : Fragment) :
    Except RenderError (List (List Char)) :=
  match action with
  | .mapping fields =>
    if isBlock fields then do
      let first ← renderer.blockLine depth ((fields.lookup "conditions").getD .null)
      let thenLines ←
        match _ : fields.lookup "then" with
        | some branch => branchLines renderer (depth + 1) branch
        | none => .ok []
      let elseLines ←
        match _ : fields.lookup "else" with
        | some branch =>
          if branch.isTruthy then
            (branchLines renderer (depth + 1) branch).map
              ((indentation depth ++ "else".toList) :: ·)
          else
            .ok []
        | none => .ok []
      return commentLines depth fields ++ first :: thenLines ++ elseLines ++
        [indentation depth ++ "end".toList]
    else do
      let line ← renderer.actionLine depth (.mapping (unpublish fields))
      return commentLines depth fields ++ [line]
  | action => do
    return [← renderer.actionLine depth action]
termination_by sizeOf action
decreasing_by
  all_goals
    have := Fragment.sizeOf_lt_of_lookup ‹fields.lookup _ = some branch›
    simp only [Fragment.mapping.sizeOf_spec]
    omega

/-- The lines of a branch of a block. -/
def branchLines (renderer : Renderer) (depth : Nat) (branch : Fragment) :
    Except RenderError (List (List Char)) :=
  match branch with
  | .list actions => listLines renderer depth actions
  | branch => do
    let elements ← branch.elements?.mapError .shape
    elements.mapM (renderer.actionLine depth)
termination_by sizeOf branch

/-- The lines of actions. -/
def listLines (renderer : Renderer) (depth : Nat) (actions : List Fragment) :
    Except RenderError (List (List Char)) :=
  match actions with
  | [] => .ok []
  | action :: rest => do
    let lines ← actionLines renderer depth action
    return lines ++ (← listLines renderer depth rest)
termination_by sizeOf actions

end

/-- The line of a trigger. -/
def triggerLine (trigger : Fragment) : Except RenderError (List Char) :=
  (trigger.fields?.mapError .shape).map fun fields =>
    '@' :: (Fragment.plainField "type" "" fields).toList

/-- The lines of a document. -/
def documentLines (renderer : Renderer) (document : Fragment) :
    Except RenderError (List (List Char)) := do
  let fields ← document.fields?.mapError .shape
  let triggers ← ((fields.lookup "triggers").getD (.list [])).elements?.mapError .shape
  let triggerLines ← triggers.mapM triggerLine
  let actionLines ← renderer.branchLines 0 ((fields.lookup "actions").getD (.list []))
  return triggerLines ++ actionLines

/-- The text that stands for a document. -/
def renderDocument (renderer : Renderer) (document : Fragment) :
    Except RenderError (List Char) :=
  (renderer.documentLines document).map (['\n'].intercalate ·)

end TriggerLang.Renderer
