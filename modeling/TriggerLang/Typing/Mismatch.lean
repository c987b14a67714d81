import TriggerLang.Diagnostic.Basic
import TriggerLang.Fragment.Shape
import TriggerLang.Token.Basic
import TriggerLang.Typing.DataType

/-!
# Type mismatches

The operands of `and` and `or` must be booleans, those of a calculation numbers, and the
arguments of a function must have the types of its parameters.  `argumentMismatches`
lists the places of a fragment where this fails, an operand or argument before what it
holds itself; `mismatches` puts a wrong type of the whole fragment first.  A mismatch
knows the value it is about, and only where it is shown in a source text a region is
looked for.
-/

namespace TriggerLang

/-- A value does not have the type that its place asks for. -/
inductive Mismatch where
  /-- The whole fragment. -/
  | result (expected actual : String)
  /-- An operand of a connective. -/
  | operand (connective : String) (value : Fragment) (actual : String)
  /-- An argument of a function, or an operand of a calculation. -/
  | argument (owner field : String) (value : Fragment) (expected actual : String)

namespace Mismatch

/-- The issue that a mismatch is reported as. -/
def issue : Mismatch → Issue
  | .result .. => .returnTypeMismatch
  | _ => .argumentTypeMismatch

/-- The wording of a mismatch. -/
def message : Mismatch → String
  | .result expected actual => "expect " ++ expected ++ " here, but got " ++ actual
  | .operand connective _ actual =>
    "expect " ++ booleanType ++ " for `" ++ connective ++ "`, but got " ++ actual
  | .argument owner field _ expected actual =>
    "expect " ++ expected ++ " for `" ++ field ++ "` of `" ++ owner ++ "`, but got " ++ actual

/-- The name that the value starts with in a source text: that of a variable, or of the
called function. -/
def headName? (value : Fragment) : Option String :=
  value.functionName?.bind fun function =>
    match value.get? "variableName" with
    | some name => if name.isTruthy then some name.plain else none
    | none => some function

/-- The names to look for in a source text, the best one first. -/
def candidates : Mismatch → List String
  | .result .. => []
  | .operand _ value _ => (headName? value).toList
  | .argument owner _ value _ _ => (headName? value).toList ++ [owner]

/-- The region of a mismatch: the first identifier with the first name that occurs, or the
whole text. -/
def region (mismatch : Mismatch) (source : List Char) : Text.Region :=
  match mismatch.candidates.findSome? (findIdentifier? source) with
  | some token => token.region source
  | none => .ofLine source

/-- The diagnostic of a mismatch in a source text. -/
def diagnostic (source : List Char) (mismatch : Mismatch) : Diagnostic :=
  .saying mismatch.issue (mismatch.region source) mismatch.message

end Mismatch

/-- The connective of a condition with these parts, if its operator is one. -/
def connective? (parts : List Fragment) : Option String :=
  match parts.head?.bind (·.get? "operator") with
  | some (.string operator) =>
    if operator = "AND" then some "and" else if operator = "OR" then some "or" else none
  | _ => none

/-- The mismatch of an operand of a condition, if its connective asks for a boolean and the
operand is none. -/
def operandMismatch (catalog : Catalog) (connective : Option String) (operand : Fragment) :
    List Mismatch :=
  match connective with
  | some connective =>
    let actual := inferType catalog operand
    if isAssignable actual booleanType then [] else [.operand connective operand actual]
  | none => []

/-- The mismatch of an argument, if it does not have the expected type. -/
def argumentMismatch (catalog : Catalog) (owner field : String) (value : Fragment)
    (expected : String) : List Mismatch :=
  let actual := inferType catalog value
  if isAssignable actual expected then [] else [.argument owner field value expected actual]

mutual

/-- The mismatches within a fragment. -/
def argumentMismatches (catalog : Catalog) (fragment : Fragment) : List Mismatch :=
  match fragment with
  | .list (header :: operands) =>
    operandMismatches catalog (operandMismatch catalog (connective? (header :: operands))) operands
  | .mapping fields =>
    match (Fragment.mapping fields).functionName? with
    | none => []
    | some name =>
      if name = calculateFunction then
        match _ : fields.lookup "items" with
        | some (.list (_ :: operands)) =>
          operandMismatches catalog
            (fun operand => argumentMismatch catalog name "items" operand numberType) operands
        | _ => []
      else
        match catalog.get? name with
        | none => []
        | some signature =>
          signature.parameters.flatMap fun parameter =>
            match _ : fields.lookup parameter.field with
            | none => []
            | some value =>
              argumentMismatch catalog name parameter.field value parameter.dataType ++
                argumentMismatches catalog value
  | _ => []
termination_by sizeOf fragment
decreasing_by
  · simp only [Fragment.list.sizeOf_spec, List.cons.sizeOf_spec]
    omega
  · have := Fragment.sizeOf_lt_of_lookup ‹fields.lookup "items" = _›
    simp only [Fragment.list.sizeOf_spec, Fragment.mapping.sizeOf_spec,
      List.cons.sizeOf_spec] at *
    omega
  · have := Fragment.sizeOf_lt_of_lookup ‹fields.lookup parameter.field = _›
    simp only [Fragment.mapping.sizeOf_spec]
    omega

/-- The mismatches of operands: for each one its own, then those within it. -/
def operandMismatches (catalog : Catalog) (own : Fragment → List Mismatch)
    (operands : List Fragment) : List Mismatch :=
  match operands with
  | [] => []
  | operand :: rest =>
    own operand ++ argumentMismatches catalog operand ++ operandMismatches catalog own rest
termination_by sizeOf operands

end

/-- The mismatches of a fragment that should have the type `expected`; the empty type asks
for nothing. -/
def mismatches (catalog : Catalog) (fragment : Fragment) (expected : String) : List Mismatch :=
  let actual := inferType catalog fragment
  (if isAssignable actual expected then [] else [.result expected actual]) ++
    argumentMismatches catalog fragment

/-- The diagnostics of a fragment read from `source` that should have the type `expected`. -/
def checkType (catalog : Catalog) (source : List Char) (fragment : Fragment)
    (expected : String) : List Diagnostic :=
  (mismatches catalog fragment expected).map (Mismatch.diagnostic source)

/-- The diagnostics of a primitive value that should have the type `expected`. -/
def checkPrimitive (source : List Char) (value : Fragment) (expected : String) :
    List Diagnostic :=
  if acceptsPrimitive value expected then
    []
  else
    [Mismatch.diagnostic source (.result expected ((primitiveType? value).getD "None"))]

end TriggerLang
