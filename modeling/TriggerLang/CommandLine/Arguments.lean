import TriggerLang.Text.Line
import TriggerLang.Text.Numeral

/-!
# Command-line arguments

An argument that starts with a dash is an option, unless it is a dash alone, a negative
number, or has a space in it; after two dashes alone no argument is one.  The name of an
option may be cut short as long as only one option starts with it, and its value may
follow after an equals sign.  All arguments that are no options must stand together.
-/

namespace TriggerLang

/-- An option of a command. -/
structure OptionSpec where
  name : String
  takesValue : Bool
  /-- The options that may not be given before it. -/
  excluded : List String := []
deriving DecidableEq, Repr

/-- Why a command line is not carried out. -/
inductive UsageError where
  | wrong
  | helpWanted
deriving DecidableEq, Repr

/-- What the arguments of a command say: the options in their order, with their values or
nothing, and the other arguments. -/
structure Arguments where
  options : List (String × String) := []
  others : List String := []
deriving Repr

namespace Arguments

/-- The last value of an option. -/
def value? (arguments : Arguments) (name : String) : Option String :=
  arguments.options.reverse.lookup name

/-- All values of an option. -/
def values (arguments : Arguments) (name : String) : List String :=
  (arguments.options.filter (·.1 == name)).map (·.2)

/-- An argument by its form. -/
inductive Word where
  | other (text : String)
  | separator
  | known (option : OptionSpec) (value : Option String)
  /-- The short plea for help with more characters after it. -/
  | helpCluster (more : List Char)
  | unknown
deriving Repr

/-- A text cut at its first equals sign, if it has one. -/
def cutAtEquals (text : List Char) : List Char × Option String :=
  match text.dropWhile (· != '=') with
  | [] => (text, none)
  | _ :: value => (text.takeWhile (· != '='), some (String.ofList value))

/-- A dash and a decimal number. -/
def isNegativeNumber (text : List Char) : Bool :=
  match text with
  | '-' :: number =>
    match number.dropWhile Text.isDigit with
    | [] => !number.isEmpty
    | '.' :: fraction => !fraction.isEmpty && fraction.all Text.isDigit
    | _ => false
  | _ => false

/-- The options that an argument can mean that is no full name of one. -/
def candidates (specs : List OptionSpec) (text : List Char) : List Word :=
  match text with
  | '-' :: '-' :: _ =>
    let (start, value) := cutAtEquals text
    (specs.filter fun spec => start.isPrefixOf spec.name.toList).map (.known · value)
  | '-' :: 'h' :: more => [.helpCluster more]
  | _ => []

/-- An argument by its form, unless it can mean several options. -/
def readWord (specs : List OptionSpec) (argument : String) : Except UsageError Word :=
  let text := argument.toList
  let (start, value) := cutAtEquals text
  let named (name : List Char) := specs.find? (·.name.toList == name)
  if argument = "--" then .ok .separator
  else if text.head? != some '-' then .ok (.other argument)
  else
    match named text, value.bind fun _ => named start with
    | some spec, _ => .ok (.known spec none)
    | none, some spec => .ok (.known spec value)
    | none, none =>
      if argument = "-" then .ok (.other argument)
      else
        match candidates specs text with
        | [word] => .ok word
        | _ :: _ => .error .wrong
        | [] =>
          if isNegativeNumber text || text.contains ' ' then .ok (.other argument)
          else .ok .unknown

/-- The arguments by their forms. -/
def readWords (specs : List OptionSpec) : List String → Except UsageError (List Word)
  | [] => .ok []
  | argument :: rest => do
    match ← readWord specs argument with
    | .separator => return .separator :: rest.map .other
    | word => return word :: (← readWords specs rest)

/-- How far the arguments that are no options have been read. -/
inductive Phase where
  | before
  | within
  | after
deriving DecidableEq, Repr

/-- The phase once an option has been read. -/
def Phase.close : Phase → Phase
  | .before => .before
  | _ => .after

/-- The option is a plea for help. -/
def isHelp (spec : OptionSpec) : Bool :=
  spec.name == "--help" || spec.name == "-h"

/-- What is known after an option with a value. -/
def add (arguments : Arguments) (spec : OptionSpec) (value : String) :
    Except UsageError Arguments :=
  if spec.excluded.any fun name => (arguments.value? name).isSome then
    .error .wrong
  else
    .ok { arguments with options := arguments.options ++ [(spec.name, value)] }

/-- What is known after an option that takes no value. -/
def addFlag (arguments : Arguments) (spec : OptionSpec) : Except UsageError Arguments :=
  if isHelp spec then .error .helpWanted else arguments.add spec ""

/-- What the short plea for help means with more characters after it: help is wanted, unless
a value or an option is given to it. -/
def clusterError (more : List Char) : UsageError :=
  match more.dropWhile (· == 'h') with
  | '=' :: _ | '-' :: _ => .wrong
  | _ => .helpWanted

/-- What the rest of the arguments says; `surplus` tells that one of them has no place. -/
def collect (arguments : Arguments) (phase : Phase) (surplus : Bool) :
    List Word → Except UsageError Arguments
  | [] => if surplus then .error .wrong else .ok arguments
  | .known spec (some value) :: rest =>
    if spec.takesValue then do
      collect (← arguments.add spec value) phase.close surplus rest
    else
      .error .wrong
  | .known spec none :: rest =>
    if spec.takesValue then
      match rest with
      | .other text :: rest => do
        collect (← arguments.add spec text) phase.close surplus rest
      | _ => .error .wrong
    else do
      collect (← arguments.addFlag spec) phase.close surplus rest
  | .other text :: rest =>
    if phase = .after then
      collect arguments phase true rest
    else
      collect { arguments with others := arguments.others ++ [text] } .within surplus rest
  | .helpCluster more :: _ => .error (clusterError more)
  | .separator :: rest => collect arguments phase (surplus || phase = .after) rest
  | .unknown :: rest => collect arguments phase.close true rest

/-- What the arguments of a command say; `takesOthers` tells that it takes arguments that are
no options. -/
def read (specs : List OptionSpec) (takesOthers : Bool) (arguments : List String) :
    Except UsageError Arguments := do
  collect {} (if takesOthers then .before else .after) false (← readWords specs arguments)

end Arguments

end TriggerLang
