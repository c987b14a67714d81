import TriggerLang.Diagnostic.Basic
import TriggerLang.Fragment.Display
import TriggerLang.Token.Basic

/-!
# Token listings

A listing shows the tokens of a text, one a line, with their places, kinds, spans, flags
and texts, and after them the diagnostics of the text: one for every string literal
without a closing quote.
-/

namespace TriggerLang

/-- The diagnostics of the tokens of a text. -/
def tokenDiagnostics (source : List Char) : List Diagnostic :=
  ((properTokens source).filter (·.flags.unterminated)).map fun token =>
    .of .unterminatedString (token.region source)

/-- `text` with `fill` before it up to a width. -/
def padStart (width : Nat) (fill : Char) (text : List Char) : List Char :=
  List.replicate (width - text.length) fill ++ text

/-- `text` with spaces after it up to a width. -/
def padEnd (width : Nat) (text : List Char) : List Char :=
  text ++ List.replicate (width - text.length) ' '

/-- The line of the token at a place. -/
def Token.line (place : Nat) (token : Token) : List Char :=
  padStart 3 '0' (Nat.toDigits 10 place) ++ ' ' :: padEnd 22 token.kind.name.toList ++
    " range=(".toList ++ Nat.toDigits 10 token.start ++ ", ".toList ++
    Nat.toDigits 10 token.stop ++ ") flags=".toList ++ Nat.toDigits 10 token.flags.toNat ++
    " text=".toList ++ quoteShown token.text

/-- The name of a severity in a listing. -/
def Severity.title : Severity → String
  | .info => "INFO"
  | .warning => "WARNING"
  | .error => "ERROR"

/-- The line of a diagnostic. -/
def Diagnostic.line (d : Diagnostic) : List Char :=
  ("- " ++ d.severity.title ++ " " ++ d.code ++ " range=" ++ d.region.text ++ " message=" ++
    d.message).toList

/-- The lines of the tokens of a text. -/
def tokenLines (source : List Char) : List (List Char) :=
  (tokens source).zipIdx.map fun (token, place) => token.line place

/-- The lines of the diagnostics of a text, under a heading. -/
def diagnosticLines (source : List Char) : List (List Char) :=
  [] :: "Diagnostics:".toList :: (tokenDiagnostics source).map Diagnostic.line

/-- Lines with a line feed after each. -/
def joinLines (lines : List (List Char)) : List Char :=
  lines.flatMap (· ++ ['\n'])

/-- The listing of a text, with its diagnostics if they are asked for. -/
def listing (source : List Char) (withDiagnostics : Bool) : List Char :=
  joinLines (tokenLines source ++ if withDiagnostics then diagnosticLines source else [])

end TriggerLang
