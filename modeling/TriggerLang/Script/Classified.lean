import TriggerLang.Text.Blank
import TriggerLang.Token.Basic

/-!
# Kinds of script lines

The first characters of a line tell what it is: two slashes start a comment and the sign
`@` a trigger.  A line whose first word is `if` opens a block, and a line that is the
single word `else` or `end` goes on with one or closes it.  Every other line that is not
blank is an action.
-/

namespace TriggerLang

/-- What a line of a script is. -/
inductive LineKind where
  | blank
  | comment
  | trigger
  | blockStart
  | blockElse
  | blockEnd
  | action
deriving DecidableEq, Repr

/-- The name of a kind of line. -/
def LineKind.name : LineKind → String
  | .blank => "blank"
  | .comment => "comment"
  | .trigger => "trigger"
  | .blockStart => "if"
  | .blockElse => "else"
  | .blockEnd => "end"
  | .action => "action"

/-- A line with its kind and its body: the text of a comment, the condition of a block, or
the whole line of a trigger or an action. -/
structure ClassifiedLine where
  kind : LineKind
  text : List Char
  /-- The offset of the body in the line, before a comment is trimmed. -/
  bodyOffset : Nat := 0
  body : List Char := []
deriving DecidableEq, Repr

/-- The kind of a line by its keyword, and the offset after the keyword. -/
def leadingKeyword? (line : List Char) : Option (LineKind × Nat) :=
  match significantTokens line with
  | [] => none
  | first :: others =>
    if first.isWord "if" then some (.blockStart, first.stop)
    else if first.isWord "else" && others.isEmpty then some (.blockElse, first.stop)
    else if first.isWord "end" && others.isEmpty then some (.blockEnd, first.stop)
    else none

/-- The kind of a line without white space around it. -/
def classifyLine (line : List Char) : ClassifiedLine :=
  if line.all Text.isBlank then
    { kind := .blank, text := line }
  else if "//".toList.isPrefixOf line then
    { kind := .comment, text := line, bodyOffset := 2, body := Text.trim (line.drop 2) }
  else if "@".toList.isPrefixOf line then
    { kind := .trigger, text := line, body := line }
  else
    match leadingKeyword? line with
    | some (.blockStart, stop) =>
      { kind := .blockStart, text := line, bodyOffset := stop, body := line.drop stop }
    | some (kind, stop) => { kind, text := line, bodyOffset := stop }
    | none => { kind := .action, text := line, body := line }

end TriggerLang
