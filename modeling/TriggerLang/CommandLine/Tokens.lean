import TriggerLang.CommandLine.Command
import TriggerLang.Token.Listing

/-!
# Listing tokens

The command lists the tokens of a file or of a text that is given as an argument, with
the diagnostics of the text, and their number.
-/

namespace TriggerLang.ListTokens

/-- The options of the command. -/
def options : List OptionSpec :=
  [⟨"-h", false, []⟩, ⟨"--help", false, []⟩, ⟨"--file", true, ["--text"]⟩,
    ⟨"--text", true, ["--file"]⟩]

/-- The text whose tokens are asked for: exactly one source must be given. -/
def source (tree : FileTree) (arguments : Arguments) : Attempt (List Char) :=
  match arguments.value? "--file", arguments.value? "--text" with
  | some path, none => readFile tree path
  | none, some text => .ok text.toList
  | _, _ => .error (.usage .wrong)

/-- The listing of a text and the number of its tokens. -/
def report (text : List Char) : List Char :=
  listing text true ++
    '\n' :: Nat.toDigits 10 (tokens text).length ++ " tokens\n".toList

/-- Runs the command. -/
def run (tree : FileTree) (arguments : List String) : CommandRun :=
  let text := do source tree (← (Arguments.read options false arguments).mapError Ending.usage)
  match text with
  | .ok text => ⟨⟨tree, report text⟩, .done⟩
  | .error ending => ⟨⟨tree, []⟩, ending⟩

/-- The paths that the command reads. -/
def inputs (arguments : List String) : List String :=
  match Arguments.read options false arguments with
  | .ok arguments => arguments.values "--file"
  | .error _ => []

/-- The command. -/
def command : Command where
  name := "tokens"
  usage := "--file FILE | --text TEXT"
  inputs := inputs
  run := run

end TriggerLang.ListTokens
