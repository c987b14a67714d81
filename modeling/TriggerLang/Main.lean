import TriggerLang.CommandLine.Compile
import TriggerLang.CommandLine.Tokens

/-!
# The program

The first argument names a command.  What the paths that the command reads lead to is
loaded into a file tree, the command runs on it, and what it has changed is written back.
-/

namespace TriggerLang

/-- The commands of the program. -/
def commands : List Command :=
  [Compile.command, ListTokens.command]

/-- The path of names from the root. -/
def pathFromRoot (names : List String) : String :=
  "/" ++ "/".intercalate names

/-- What a directory holds, unless there is none with the given names from the root. -/
def directoryEntries? (names : List String) : IO (Option (Array IO.FS.DirEntry)) := do
  try
    return some (← (← IO.FS.realPath (pathFromRoot names)).readDir)
  catch _ =>
    return none

/-- The text of a file, unless there is none with the given names from the root. -/
def fileContent? (names : List String) : IO (Option (List Char)) := do
  try
    return some (← IO.FS.readFile (pathFromRoot names)).toList
  catch _ =>
    return none

/-- The tree with what has the given names from the root, to a depth of further names. -/
def load (tree : FileTree) (names : List String) : Nat → IO FileTree
  | 0 => return tree
  | depth + 1 => do
    match ← directoryEntries? names with
    | some entries =>
      entries.foldlM (fun tree entry => load tree (names ++ [entry.fileName]) depth)
        { tree with directories := tree.directories ++ [names] }
    | none =>
      match ← fileContent? names with
      | some content => return { tree with files := tree.files ++ [(names, content)] }
      | none => return tree

/-- The greatest number of names that a path has. -/
def maximalDepth : Nat :=
  2048

/-- The tree with what a path leads to. -/
def loadPath (tree : FileTree) (path : String) : IO FileTree :=
  load tree (tree.namesAt (Path.read path)) maximalDepth

/-- The tree with nothing loaded. -/
def emptyTree : IO FileTree := do
  let current ← IO.currentDir
  return { current := (Path.read current.toString).names }

/-- Writes back what has changed between two trees. -/
def store (before after : FileTree) : IO Unit := do
  for names in before.directoriesSince after do
    IO.FS.createDirAll (pathFromRoot names)
  for (names, content) in before.changesSince after do
    IO.FS.writeFile (pathFromRoot names) (String.ofList content)

/-- Says how a command has ended, and gives the status of the program. -/
def conclude (command : Command) : Ending → IO UInt32
  | .done => return 0
  | .status n => return n.toUInt32
  | .notice text => do
    IO.eprintln text
    return 1
  | .usage .helpWanted => do
    IO.println ("usage: " ++ command.name ++ " " ++ command.usage)
    return 0
  | .usage .wrong => do
    IO.eprintln ("usage: " ++ command.name ++ " " ++ command.usage)
    return 2
  | .fault fault => do
    IO.eprintln fault.message
    return 1

/-- Runs a command on the files of the machine. -/
def execute (command : Command) (arguments : List String) : IO UInt32 := do
  let before ← (command.inputs arguments).foldlM loadPath (← emptyTree)
  let finished := command.run before arguments
  store before finished.effects.tree
  IO.print (String.ofList finished.effects.output)
  conclude command finished.ending

end TriggerLang

/-- Runs the command that the first argument names. -/
def main : List String → IO UInt32
  | [] => do
    for command in TriggerLang.commands do
      IO.eprintln ("usage: " ++ command.name ++ " " ++ command.usage)
    return 2
  | name :: arguments =>
    match TriggerLang.commands.find? (·.name == name) with
    | some command => TriggerLang.execute command arguments
    | none => do
      IO.eprintln ("no such command: " ++ name)
      return 2
