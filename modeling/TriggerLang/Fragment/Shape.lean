import TriggerLang.Fragment.Display
import TriggerLang.Fragment.Basic

/-!
# Shapes of fragments

Data that comes from outside need not have the shape that it is read with.  A list is
read from a string as its characters and from a mapping as its keys; everything else
that does not fit is a `ShapeError`.
-/

namespace TriggerLang

/-- Data does not have the shape that it is read with. -/
inductive ShapeError where
  /-- A mapping lacks a field that it must have. -/
  | missing (field : String)
  /-- A fragment of another kind is needed. -/
  | unsuitable
deriving DecidableEq, Repr

/-- The wording of a shape error, if it has one. -/
def ShapeError.message? : ShapeError → Option String
  | .missing field => some (String.ofList (quoteShown field.toList))
  | .unsuitable => none

namespace Fragment

/-- Whether the fragment counts as true: null, `false`, zero and everything empty do not. -/
def isTruthy : Fragment → Bool
  | .null => false
  | .boolean b => b
  | .integer n => n != 0
  | .float x => !x.isZero
  | .string s => s != ""
  | .list items => !items.isEmpty
  | .mapping fields => !fields.isEmpty

/-- The fields of a mapping. -/
def fields? : Fragment → Except ShapeError Fields
  | .mapping fields => .ok fields
  | _ => .error .unsuitable

/-- The elements of a list, the characters of a string, or the keys of a mapping. -/
def elements? : Fragment → Except ShapeError (List Fragment)
  | .list items => .ok items
  | .string s => .ok (s.toList.map fun c => .string (String.singleton c))
  | .mapping fields => .ok (fields.map fun field => .string field.1)
  | _ => .error .unsuitable

/-- The value of a field that a mapping must have. -/
def require (field : String) (fragment : Fragment) : Except ShapeError Fragment := do
  match (← fragment.fields?).lookup field with
  | some value => return value
  | none => throw (.missing field)

/-- The text of a field, or `default` if it is absent. -/
def plainField (field default : String) (fields : Fields) : String :=
  match fields.lookup field with
  | some value => value.plain
  | none => default

end Fragment

end TriggerLang
