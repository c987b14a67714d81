import TriggerLang.Token.Basic

/-!
# Failures of parsing

A line is refused at a token that cannot stand where it stands, or at the end of the line
if the line is not complete; or for a name that is not known.  An unexpected token comes
with what could have stood in its place.
-/

namespace TriggerLang.Parse

/-- What could stand in a place. -/
inductive Expectation where
  | number
  | string
  | boolean
  | function
  | variable
  | trigger
  | endOfLine
  /-- A symbol, a keyword or a quote. -/
  | literal (spelling : String)
deriving DecidableEq, Repr

/-- The wording of an expectation. -/
def Expectation.text : Expectation → String
  | .number => "NUMBER"
  | .string => "STRING"
  | .boolean => "BOOLEAN"
  | .function => "FUNCTION"
  | .variable => "VARIABLE"
  | .trigger => "TRIGGER"
  | .endOfLine => "end of line"
  | .literal spelling => "'" ++ spelling ++ "'"

/-- Why a line is refused. -/
inductive Failure where
  /-- The token, or the end of the line, cannot stand in its place. -/
  | unexpected (token : Option Token) (expected : List Expectation)
  /-- The name is not known. -/
  | undefined (name : Token)
deriving DecidableEq, Repr

/-- A token that could not stand in its place, with its region of the text. -/
structure Unexpected where
  /-- The text of the token, or words for the end of the line. -/
  got : String
  expected : List String
  region : Text.Region
  /-- The line is not complete. -/
  recoverable : Bool
deriving DecidableEq, Repr

/-- The wording of an unexpected token. -/
def Unexpected.message (e : Unexpected) : String :=
  "expect " ++ ", ".intercalate e.expected ++ " here, but got " ++ e.got

/-- The token, or the end of the line, as it is seen in `source`. -/
def Unexpected.of (source : List Char) (token : Option Token) (expected : List Expectation) :
    Unexpected where
  got := (token.map Token.word).getD "end of line"
  expected := expected.map Expectation.text
  region := (token.getD (endToken source)).region source
  recoverable := token.isNone

/-- The wording of an undefined name. -/
def undefinedMessage (name : String) : String :=
  name ++ " is undefined"

end TriggerLang.Parse
