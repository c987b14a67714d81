import TriggerLang.Catalog.Builtin
import TriggerLang.Fragment.Shape
import TriggerLang.Operator
import TriggerLang.Token.Quoted

/-!
# Rendering fragments

A fragment is rendered as the text that stands for it.  An operand is put in brackets
where it would otherwise be read as part of another one: if it binds less tightly than
its operator, or as tightly and stands on the right, or is a comparison in a comparison.
A string that replaced a bare word is rendered as that word again.
-/

namespace TriggerLang

/-- Why a fragment stands for no text. -/
inductive RenderError where
  /-- A condition is not an operator with two operands. -/
  | malformedCondition (condition : Fragment)
  /-- A calculation is not an operator with two operands. -/
  | malformedCalculation (calculation : Fragment)
  /-- A mapping calls no function. -/
  | noFunction (mapping : Fragment)
  /-- There is no operator of this name. -/
  | unknownOperator (name : String)
  /-- A document does not have its shape. -/
  | shape (error : ShapeError)

/-- The wording of a render error, if it has one. -/
def RenderError.message? : RenderError → Option String
  | .malformedCondition condition =>
    some ("Malformed condition fragment: " ++ String.ofList condition.quoted)
  | .malformedCalculation calculation =>
    some ("Malformed calculation fragment: " ++ String.ofList calculation.quoted)
  | .noFunction mapping =>
    some ("Fragment has no `function` field: " ++ String.ofList mapping.quoted)
  | .unknownOperator name => some ("Unknown operator `" ++ name ++ "`")
  | .shape error => error.message?

/-- A text with how tightly its outermost operator binds. -/
structure Rendered where
  text : List Char
  precedence : Nat

namespace Rendered

/-- A text without an operator. -/
def atom (text : List Char) : Rendered :=
  ⟨text, 10⟩

/-- The text, in brackets if `wrap` holds. -/
def textIn (wrap : Bool) (operand : Rendered) : List Char :=
  if wrap then '(' :: operand.text ++ [')'] else operand.text

/-- An operator spelled `spelling` between two operands. -/
def binary (op : Operator) (spelling : String) (left right : Rendered) : Rendered where
  text :=
    left.textIn (left.precedence < op.precedence ||
        op.isComparison && left.precedence == op.precedence) ++
      ' ' :: spelling.toList ++ ' ' :: right.textIn (right.precedence ≤ op.precedence)
  precedence := op.precedence

end Rendered

/-- What fragments are rendered with. -/
structure Renderer where
  catalog : Catalog := .builtin
  /-- The bare words that strings were written as. -/
  bareWords : List (String × String) := []

namespace Renderer

/-- A string as the bare word that it was written as, or as a literal. -/
def stringText (renderer : Renderer) (s : String) : List Char :=
  match renderer.bareWords.lookup s with
  | some word => word.toList
  | none => quote s.toList

/-- The operator that a header names. -/
def headerOperator (header : Fragment.Fields) : String :=
  Fragment.plainField "operator" "None" header

/-- The operator called `name`. -/
def operatorNamed (name : String) : Except RenderError Operator :=
  match Operator.ofName? name with
  | some op => .ok op
  | none => .error (.unknownOperator name)

/-- The field holds an argument of a call of an unknown function. -/
def isArgumentField (field : String) : Bool :=
  field != "function" && field != "comment" && !Fragment.isReserved field

/-- The call of `name` with rendered arguments. -/
def callText (name : String) (arguments : List (List Char)) : List Char :=
  name.toList ++ '(' :: Fragment.commaSeparated arguments ++ [')']

mutual

/-- The fragment as a text with its precedence. -/
def rendered (renderer : Renderer) (fragment : Fragment) : Except RenderError Rendered :=
  match fragment with
  | .null => .ok (.atom [])
  | .boolean true => .ok (.atom "true".toList)
  | .boolean false => .ok (.atom "false".toList)
  | .integer n => .ok (.atom (integerText n))
  | .float x => .ok (.atom x.positional)
  | .string s => .ok (.atom (renderer.stringText s))
  | .list [.mapping header, left, right] => do
    let op ← operatorNamed (headerOperator header)
    let left ← rendered renderer left
    let right ← rendered renderer right
    return .binary op op.spelling left right
  | .list parts => .error (.malformedCondition (.list parts))
  | .mapping fields =>
    match fields.lookup "function" with
    | some (.string name) => renderedCall renderer name fields
    | some .null | none =>
      match fields.lookup "type" with
      | some (.string trigger) => .ok (.atom ('@' :: trigger.toList))
      | _ => .error (.noFunction (.mapping fields))
    | _ => .error (.noFunction (.mapping fields))
termination_by 2 * sizeOf fragment
decreasing_by
  all_goals
    simp only [Fragment.list.sizeOf_spec, Fragment.mapping.sizeOf_spec, List.cons.sizeOf_spec]
    omega

/-- The call of `name` with the given fields. -/
def renderedCall (renderer : Renderer) (name : String) (fields : Fragment.Fields) :
    Except RenderError Rendered :=
  if name = calculateFunction then
    match _ : fields.lookup "items" with
    | some (.list [.mapping header, left, right]) => do
      let op ← operatorNamed (headerOperator header)
      let left ← rendered renderer left
      let right ← rendered renderer right
      return .binary op op.name left right
    | _ => .error (.malformedCalculation (.mapping fields))
  else if name = variableFunction then
    .ok (.atom (Fragment.plainField "variableName" "" fields).toList)
  else
    match renderer.catalog.get? name with
    | some signature =>
      if signature.parameters.isEmpty then
        .ok (.atom name.toList)
      else do
        let arguments ← signature.parameters.mapM fun parameter =>
          match _ : fields.lookup parameter.field with
          | some value => (rendered renderer value).map Rendered.text
          | none => .ok []
        return .atom (callText name arguments)
    | none => do
      let arguments ← renderedFields renderer fields
      return .atom (callText name arguments)
termination_by 2 * sizeOf fields + 1
decreasing_by
  · have := Fragment.sizeOf_lt_of_lookup ‹fields.lookup "items" = _›
    simp only [Fragment.list.sizeOf_spec, List.cons.sizeOf_spec] at this
    omega
  · have := Fragment.sizeOf_lt_of_lookup ‹fields.lookup "items" = _›
    simp only [Fragment.list.sizeOf_spec, List.cons.sizeOf_spec] at this
    omega
  · have := Fragment.sizeOf_lt_of_lookup ‹fields.lookup parameter.field = _›
    omega
  · omega

/-- The arguments among the fields, in their order. -/
def renderedFields (renderer : Renderer) (fields : Fragment.Fields) :
    Except RenderError (List (List Char)) :=
  match fields with
  | [] => .ok []
  | (field, value) :: rest =>
    if isArgumentField field then do
      let argument ← rendered renderer value
      let arguments ← renderedFields renderer rest
      return argument.text :: arguments
    else
      renderedFields renderer rest
termination_by 2 * sizeOf fields
decreasing_by
  all_goals
    simp only [List.cons.sizeOf_spec, Prod.mk.sizeOf_spec]
    omega

end

/-- The text that stands for a fragment. -/
def render (renderer : Renderer) (fragment : Fragment) : Except RenderError (List Char) :=
  (renderer.rendered fragment).map Rendered.text

end Renderer

end TriggerLang
