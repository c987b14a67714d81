import TriggerLang.Catalog.Basic
import TriggerLang.Fragment.Display

/-!
# Data types

The type of a fragment is read off its outermost constructor: a primitive has the type
of its kind, a condition is a boolean, a calculation a number, a variable has its
declared type, and any other call the return type that the catalog gives.  A value of
unknown type is accepted everywhere, and a string stands for a type name or a script.
-/

namespace TriggerLang

/-- The type of numbers. -/
def numberType : String := "number"

/-- The type of strings. -/
def stringType : String := "string"

/-- The type of booleans. -/
def booleanType : String := "boolean"

/-- The type of scripts, which are referred to by name. -/
def scriptType : String := "script"

/-- The function of a calculation. -/
def calculateFunction : String := "calculate"

/-- The function of a variable. -/
def variableFunction : String := "getVariable"

/-- The function of the entity that a script belongs to. -/
def thisEntityFunction : String := "thisEntity"

/-- The reserved field with the type of a variable or of the entity. -/
def dataTypeField : String := "_dataType"

/-- `sub` stands somewhere in `text`. -/
def occursIn (sub : List Char) : List Char → Bool
  | [] => sub.isEmpty
  | c :: rest => sub.isPrefixOf (c :: rest) || occursIn sub rest

/-- Values of this type are names of types. -/
def isTypeName (dataType : String) : Bool :=
  occursIn "Type".toList dataType.toList

/-- The type of a primitive value. -/
def primitiveType? : Fragment → Option String
  | .boolean _ => some booleanType
  | .integer _ | .float _ => some numberType
  | .string _ => some stringType
  | _ => none

/-- The type of a call of `name`. -/
def callType (catalog : Catalog) (name : String) (fragment : Fragment) : String :=
  if name = calculateFunction then
    numberType
  else if name = variableFunction ∨ name = thisEntityFunction then
    match fragment.get? dataTypeField with
    | some dataType => dataType.plain
    | none => anyType
  else
    match catalog.get? name with
    | some signature => signature.returnType
    | none => anyType

/-- The type of a fragment. -/
def inferType (catalog : Catalog) (fragment : Fragment) : String :=
  match primitiveType? fragment with
  | some dataType => dataType
  | none =>
    match fragment with
    | .list _ => booleanType
    | _ =>
      match fragment.functionName? with
      | some name => callType catalog name fragment
      | none => anyType

/-- A value of type `actual` may stand where `expected` is asked for; the empty type asks
for nothing. -/
def isAssignable (actual expected : String) : Bool :=
  expected == "" || expected == anyType || actual == anyType || actual == expected ||
    actual == stringType && (isTypeName expected || expected == scriptType)

/-- The value may stand where `expected` is asked for, as far as its kind tells. -/
def acceptsPrimitive (value : Fragment) (expected : String) : Bool :=
  match primitiveType? value with
  | some actual => isAssignable actual expected
  | none => true

theorem isAssignable_self (dataType : String) :
  isAssignable dataType dataType = true
  := by
  simp [isAssignable]

end TriggerLang
