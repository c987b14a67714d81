import TriggerLang.CommandLine.Command
import TriggerLang.Json.Reader
import TriggerLang.Json.Writer
import TriggerLang.Script.Build

/-!
# Compiling scripts

The command builds scripts one after another, each into a JSON text with its document and
its diagnostics.  The texts go to the standard output, or each into a file of its own.
Scripts are given by their paths or by the directories that they lie in.
-/

namespace TriggerLang.Compile

/-- The options of the command. -/
def options : List OptionSpec :=
  [⟨"-h", false, []⟩, ⟨"--help", false, []⟩, ⟨"--suffix", true, []⟩, ⟨"--catalog", true, []⟩,
    ⟨"--variable", true, []⟩, ⟨"--side-table", true, []⟩, ⟨"--out-dir", true, []⟩,
    ⟨"--no-progress", false, []⟩, ⟨"--verbose", false, []⟩]

/-- What scripts are compiled with. -/
structure Setting where
  toolkit : Toolkit
  context : Context
  /-- The directory for the compiled scripts, if they are not printed. -/
  outputDirectory : Option Path

/-- The value of a JSON file. -/
def readJson (tree : FileTree) (path : String) : Attempt Fragment := do
  match Json.read? (← readFile tree path) with
  | some data => return data
  | none => throw (.fault .invalidJson)

/-- The catalog that is asked for. -/
def readCatalog (tree : FileTree) (arguments : Arguments) : Attempt Catalog :=
  match arguments.value? "--catalog" with
  | none => .ok .builtin
  | some path => do
    (Catalog.ofFragment? (← readJson tree path)).mapError fun fault => .fault (.catalog fault)

/-- The notice about an argument that declares no variable. -/
def invalidVariable (entry : String) : String :=
  "Invalid --variable `" ++ entry ++ "`; expected NAME=TYPE"

/-- The variable and its type that an argument declares. -/
def readVariable (entry : String) : Attempt (String × Option String) :=
  match Arguments.cutAtEquals entry.toList with
  | (name, some dataType) =>
    if name.isEmpty || dataType = "" then
      .error (.notice (invalidVariable entry))
    else
      .ok (String.ofList name, some dataType)
  | _ => .error (.notice (invalidVariable entry))

/-- The side table that is asked for. -/
def readSideTable (tree : FileTree) (arguments : Arguments) : Attempt SideTable :=
  match arguments.value? "--side-table" with
  | none => .ok {}
  | some path => do
    (SideTable.ofFragment? (← readJson tree path)).mapError fun e => .fault (.shape e)

/-- The scripts that a path stands for. -/
def scriptsAt (tree : FileTree) (suffix path : String) : Attempt (List Path) :=
  let path := Path.read path
  if tree.isDirectory path then .ok (tree.walk path suffix)
  else if tree.isFile path then .ok [path]
  else .error (.notice ("No such file or directory: " ++ path.text))

/-- A diagnostic as an editor reads it. -/
def marker (d : Diagnostic) : Fragment :=
  .mapping [("message", .string d.message), ("severity", .string d.severity.name),
    ("range", .mapping [("startLine", .integer d.region.start.line),
      ("startColumn", .integer d.region.start.column),
      ("endLine", .integer d.region.stop.line),
      ("endColumn", .integer d.region.stop.column)])]

/-- A compiled script as a JSON value, under the path of the script if it is printed. -/
def payload (path : Option Path) (build : Build) : Fragment :=
  .mapping ((path.map fun path => ("path", .string path.text)).toList ++
    [("document", build.document.toFragment),
      ("diagnostics", .list (build.diagnostics.map marker))])

/-- Builds the script at a path. -/
def buildAt (setting : Setting) (tree : FileTree) (order : Nat) (path : Path) :
    Attempt Build := do
  let text ← (tree.readText path).mapError fun e => .fault (.file e)
  let identity : Identity := { name := path.stem, key := path.stem, order := order }
  (buildScript setting.toolkit setting.context identity text).mapError fun e =>
    .fault (.render e)

/-- Puts a compiled script where it is to go. -/
def deliver (setting : Setting) (effects : Effects) (path : Path) (build : Build) :
    Attempt Effects :=
  match setting.outputDirectory with
  | some directory =>
    let content := Json.write (payload none build)
    match effects.tree.writeText directory (path.stem ++ ".json") content with
    | .ok tree => .ok { effects with tree }
    | .error e => .error (.fault (.file e))
  | none =>
    .ok { effects with
      output := effects.output ++ Json.write (payload (some path) build) ++ ['\n'] }

/-- Compiles scripts from the place `order` on; `failed` of the ones before had errors. -/
def compileAll (setting : Setting) (order failed : Nat) (effects : Effects) :
    List Path → CommandRun
  | [] =>
    let summary := "Compiled ".toList ++ Nat.toDigits 10 order ++ " scripts, ".toList ++
      Nat.toDigits 10 failed ++ " with errors\n".toList
    ⟨{ effects with output := effects.output ++ summary }, .status (if failed = 0 then 0 else 1)⟩
  | path :: rest =>
    let result := do
      let build ← buildAt setting effects.tree order path
      return (build, ← deliver setting effects path build)
    match result with
    | .ok (build, after) =>
      compileAll setting (order + 1)
        (if Diagnostic.anyError build.diagnostics then failed + 1 else failed) after rest
    | .error ending => ⟨effects, ending⟩

/-- What the scripts are compiled with, the scripts, and the tree with the directory for the
compiled ones. -/
def prepare (tree : FileTree) (arguments : List String) :
    Attempt (Setting × List Path × FileTree) := do
  let arguments ← (Arguments.read options true arguments).mapError Ending.usage
  if arguments.others.isEmpty then
    throw (.usage .wrong)
  let catalog ← readCatalog tree arguments
  let declared ← (arguments.values "--variable").mapM readVariable
  let sideTable ← readSideTable tree arguments
  let suffix := (arguments.value? "--suffix").getD ".trig"
  let scripts := (← arguments.others.mapM (scriptsAt tree suffix)).flatten
  if scripts.isEmpty then
    throw (.notice "No script files found")
  let outputDirectory := (arguments.value? "--out-dir").map Path.read
  let tree ←
    match outputDirectory with
    | some directory => (tree.makeDirectory directory).mapError fun e => Ending.fault (.file e)
    | none => pure tree
  let scope : Parse.Scope := ⟨catalog, { variableTypes := Table.ofEntries declared }⟩
  return (⟨.ofScope scope, { sideTable }, outputDirectory⟩, scripts, tree)

/-- Runs the command. -/
def run (tree : FileTree) (arguments : List String) : CommandRun :=
  match prepare tree arguments with
  | .ok (setting, scripts, tree) => compileAll setting 0 0 ⟨tree, []⟩ scripts
  | .error ending => ⟨⟨tree, []⟩, ending⟩

/-- The paths that the command reads. -/
def inputs (arguments : List String) : List String :=
  match Arguments.read options true arguments with
  | .ok arguments =>
    arguments.others ++ arguments.values "--catalog" ++ arguments.values "--side-table"
  | .error _ => []

/-- The command. -/
def command : Command where
  name := "compile"
  usage := "PATH... [--suffix SUFFIX] [--catalog FILE] [--variable NAME=TYPE] " ++
    "[--side-table FILE] [--out-dir DIRECTORY] [--no-progress] [--verbose]"
  inputs := inputs
  run := run

end TriggerLang.Compile
