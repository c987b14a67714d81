import TriggerLang.Text.Region

/-!
# Diagnostics

A diagnostic tells the author of a script what is wrong at a region of it.  Every issue
that the program finds has a code, a usual message and a severity.  Diagnostics are
reported in the order of their regions, then of their codes and messages.
-/

namespace TriggerLang

/-- How bad a diagnostic is. -/
inductive Severity where
  | info
  | warning
  | error
deriving DecidableEq, Repr

/-- The name of a severity. -/
def Severity.name : Severity → String
  | .info => "info"
  | .warning => "warning"
  | .error => "error"

/-- What can be wrong with a script. -/
inductive Issue where
  | unterminatedString
  | unexpectedToken
  | undefinedName
  | returnTypeMismatch
  | argumentTypeMismatch
  | unmatchedElse
  | duplicateElse
  | unmatchedEnd
  | unclosedBlock
  | multipleLines
deriving DecidableEq, Repr

namespace Issue

/-- All issues. -/
def all : List Issue :=
  [.unterminatedString, .unexpectedToken, .undefinedName, .returnTypeMismatch,
    .argumentTypeMismatch, .unmatchedElse, .duplicateElse, .unmatchedEnd, .unclosedBlock,
    .multipleLines]

/-- The code of an issue. -/
def code : Issue → String
  | .unterminatedString => "LEXER_UNTERMINATED_STRING"
  | .unexpectedToken => "PARSER_UNEXPECTED_TOKEN"
  | .undefinedName => "PARSER_UNDEFINED_NAME"
  | .returnTypeMismatch => "TYPECHECK_RETURN_TYPE_MISMATCH"
  | .argumentTypeMismatch => "TYPECHECK_ARGUMENT_TYPE_MISMATCH"
  | .unmatchedElse => "STRUCTURE_UNMATCHED_ELSE"
  | .duplicateElse => "STRUCTURE_DUPLICATE_ELSE"
  | .unmatchedEnd => "STRUCTURE_UNMATCHED_END"
  | .unclosedBlock => "STRUCTURE_UNCLOSED_BLOCK"
  | .multipleLines => "INLINE_MULTIPLE_LINES"

/-- The message of an issue that says no more. -/
def message : Issue → String
  | .unterminatedString => "Unterminated string literal."
  | .unexpectedToken => "Unexpected token"
  | .undefinedName => "Name is undefined"
  | .returnTypeMismatch => "Value does not produce the expected type."
  | .argumentTypeMismatch => "Argument does not match the parameter type."
  | .unmatchedElse => "`else` without an open `if` block."
  | .duplicateElse => "`if` block already has an `else` branch."
  | .unmatchedEnd => "`end` without an open `if` block."
  | .unclosedBlock => "`if` block is never closed and is left out of the document."
  | .multipleLines => "Inline scripts must fit on a single line; extra lines are ignored."

/-- What the author may do about an issue. -/
def hint? : Issue → Option String
  | .unterminatedString => some "Close the string with a double quote."
  | .undefinedName => some "Declare the variable or pick a function from the catalog."
  | .duplicateElse => some "Close the block with `end` before starting another branch."
  | .unclosedBlock => some "Add an `end` line after the block's last action."
  | _ => none

/-- How bad an issue is. -/
def severity : Issue → Severity
  | .unclosedBlock => .warning
  | _ => .error

/-- The part of the language that an issue belongs to. -/
def category : Issue → String
  | .unterminatedString => "lexer"
  | .unexpectedToken | .undefinedName => "parser"
  | .returnTypeMismatch | .argumentTypeMismatch => "typecheck"
  | .unmatchedElse | .duplicateElse | .unmatchedEnd | .unclosedBlock | .multipleLines =>
    "structure"

end Issue

/-- A remark on a region of a script. -/
structure Diagnostic where
  code : String
  message : String
  region : Text.Region
  severity : Severity := .error
  hint : Option String := none
  category : Option String := none
deriving DecidableEq, Repr

namespace Diagnostic

/-- The diagnostic of an issue with a message of its own. -/
def saying (issue : Issue) (region : Text.Region) (message : String) : Diagnostic where
  code := issue.code
  message := message
  region := region
  severity := issue.severity
  hint := issue.hint?
  category := some issue.category

/-- The diagnostic of an issue. -/
def of (issue : Issue) (region : Text.Region) : Diagnostic :=
  saying issue region issue.message

/-- The diagnostic moved to line `line`, its columns shifted by `delta`. -/
def move (d : Diagnostic) (line delta : Int) : Except Text.RangeError Diagnostic :=
  (d.region.move line delta).map fun region => { d with region }

/-- The diagnostic of a line alone, placed on line `number` of a script. -/
def place (d : Diagnostic) (number : Nat) (number_pos : 0 < number) (indent : Nat) : Diagnostic :=
  { d with region := d.region.place number number_pos indent }

/-- The diagnostic is an error. -/
def isError (d : Diagnostic) : Bool :=
  d.severity == .error

/-- The order in which diagnostics are reported. -/
protected def le (d e : Diagnostic) : Bool :=
  if d.region.bounds = e.region.bounds then
    d.code < e.code || d.code == e.code && decide (d.message ≤ e.message)
  else
    d.region.le e.region

/-- The diagnostics in the order in which they are reported. -/
def sort (ds : List Diagnostic) : List Diagnostic :=
  ds.mergeSort Diagnostic.le

/-- Some diagnostic is an error. -/
def anyError (ds : List Diagnostic) : Bool :=
  ds.any isError

end Diagnostic

end TriggerLang
