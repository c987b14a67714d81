import TriggerLang.Catalog.Reader
import TriggerLang.CommandLine.Arguments
import TriggerLang.CommandLine.FileTree
import TriggerLang.Render.Fragment

/-!
# Commands

A command runs over a file tree.  It leaves a text on the standard output and a changed
tree, and ends with a status, with a notice, or with a fault.
-/

namespace TriggerLang

/-- What stops a command short. -/
inductive Fault where
  | file (error : FileError)
  | invalidJson
  | catalog (fault : CatalogFault)
  | shape (error : ShapeError)
  | render (error : RenderError)

/-- The wording of a shape error in a file that a command reads. -/
def shapeMessage : ShapeError → String
  | .missing field => "the data lacks the field " ++ field
  | .unsuitable => "the data does not have the shape that is needed"

/-- The wording of a file error. -/
def FileError.message : FileError → String
  | .missing => "no such file or directory"
  | .isDirectory => "a directory stands where a file is needed"
  | .isFile => "a file stands where a directory is to be made"
  | .notDirectory => "a file stands where a directory is needed"

/-- The wording of a fault. -/
def Fault.message : Fault → String
  | .file error => error.message
  | .invalidJson => "the file is not valid JSON"
  | .catalog (.invalid error) => error.message
  | .catalog (.shape error) => shapeMessage error
  | .shape error => shapeMessage error
  | .render error => error.message?.getD "the document does not have the shape of one"

/-- How a command ends. -/
inductive Ending where
  /-- The command has done its work and has no more to say. -/
  | done
  | status (n : Nat)
  | notice (text : String)
  | usage (error : UsageError)
  | fault (fault : Fault)

/-- What a command has done. -/
structure Effects where
  tree : FileTree
  /-- The text on the standard output. -/
  output : List Char := []

/-- A command that has ended. -/
structure CommandRun where
  effects : Effects
  ending : Ending

/-- A command: the paths that it reads when it is given arguments, and what it does with them
in a file tree. -/
structure Command where
  name : String
  /-- The arguments of the command, in a line. -/
  usage : String
  inputs : List String → List String
  run : FileTree → List String → CommandRun

/-- A step of a command that ends it if it fails. -/
abbrev Attempt :=
  Except Ending

/-- The text of the file that a path leads to. -/
def readFile (tree : FileTree) (path : String) : Attempt (List Char) :=
  (tree.readText (.read path)).mapError fun e => .fault (.file e)

end TriggerLang
