import TriggerLang.Text.Line

/-!
# File trees

A path is a list of names, of which `..` goes back to the directory before.  A file tree
holds the contents of files by their names from the root; a directory is there if a file
lies below it, if it has been made, or if relative paths start from it or below it.
-/

namespace TriggerLang

/-- A path to a file or a directory. -/
structure Path where
  isAbsolute : Bool := false
  names : List String
deriving DecidableEq, Repr

namespace Path

/-- The path that a text writes; empty names and single dots are dropped. -/
def read (text : String) : Path where
  isAbsolute := "/".toList.isPrefixOf text.toList
  names := ((Text.splitAt '/' text.toList).map String.ofList).filter fun name =>
    name != "" && name != "."

/-- The path as text. -/
def text (path : Path) : String :=
  let joined := "/".intercalate path.names
  if path.isAbsolute then "/" ++ joined else if path.names.isEmpty then "." else joined

/-- The path that goes on with `names`. -/
def append (path : Path) (names : List String) : Path :=
  { path with names := path.names ++ names }

/-- The last name of the path without its last suffix; a dot at either end starts none. -/
def stem (path : Path) : String :=
  let name := (path.names.getLast?.getD "").toList
  let suffix := name.reverse.takeWhile (· != '.')
  let before := name.length - suffix.length - 1
  if suffix.length < name.length ∧ 0 < before ∧ suffix ≠ [] then
    String.ofList (name.take before)
  else
    String.ofList name

end Path

/-- Why a file cannot be read or written or a directory not be made. -/
inductive FileError where
  | missing
  | isDirectory
  | isFile
  /-- A name before the last is that of a file. -/
  | notDirectory
deriving DecidableEq, Repr

/-- The contents of files, and the directories that have been made. -/
structure FileTree where
  /-- The directory that relative paths start from. -/
  current : List String := []
  files : List (List String × List Char) := []
  directories : List (List String) := []

namespace FileTree

/-- The tree has a directory with these names from the root. -/
def hasDirectory (tree : FileTree) (names : List String) : Bool :=
  names.isPrefixOf tree.current || tree.directories.any names.isPrefixOf ||
    tree.files.any fun file => names.isPrefixOf file.1 && names.length < file.1.length

/-- The content of the file with these names from the root. -/
def content? (tree : FileTree) (names : List String) : Option (List Char) :=
  tree.files.lookup names

/-- The names from the root that the first name of a path is looked up after. -/
def start (tree : FileTree) (path : Path) : List String :=
  if path.isAbsolute then [] else tree.current

/-- The names from the root of what one more name leads to. -/
def follow (directory : List String) (name : String) : List String :=
  if name = ".." then directory.dropLast else directory ++ [name]

/-- The names from the root that a path leads to if every name but the last is that of a
directory. -/
def namesAt (tree : FileTree) (path : Path) : List String :=
  path.names.foldl follow (tree.start path)

/-- The names from the root that further names lead to from a place; every name but the last
must be that of a directory. -/
def resolveFrom (tree : FileTree) (place : List String) :
    List String → Except FileError (List String)
  | [] => .ok place
  | name :: rest =>
    if tree.hasDirectory place then
      resolveFrom tree (follow place name) rest
    else
      .error (if (tree.content? place).isSome then .notDirectory else .missing)

/-- The names from the root that a path leads to. -/
def resolve (tree : FileTree) (path : Path) : Except FileError (List String) :=
  tree.resolveFrom (tree.start path) path.names

/-- The path leads to a directory. -/
def isDirectory (tree : FileTree) (path : Path) : Bool :=
  (tree.resolve path).toOption.any tree.hasDirectory

/-- The path leads to a file. -/
def isFile (tree : FileTree) (path : Path) : Bool :=
  (tree.resolve path).toOption.any fun names => (tree.content? names).isSome

/-- The text of the file that a path leads to, its line breaks written as line feeds. -/
def readText (tree : FileTree) (path : Path) : Except FileError (List Char) := do
  let names ← tree.resolve path
  match tree.content? names with
  | some content => return Text.unifyLineBreaks content
  | none => throw (if tree.hasDirectory names then .isDirectory else .missing)

/-- The tree with the directories that further names lead to from a directory. -/
def makeFrom (tree : FileTree) (place : List String) : List String → Except FileError FileTree
  | [] => .ok tree
  | name :: rest =>
    let next := follow place name
    if (tree.content? next).isSome then
      .error (if rest.isEmpty then .isFile else .notDirectory)
    else if tree.hasDirectory next then
      makeFrom tree next rest
    else
      makeFrom { tree with directories := tree.directories ++ [next] } next rest

/-- The tree with the directory that a path leads to, and those before it. -/
def makeDirectory (tree : FileTree) (path : Path) : Except FileError FileTree :=
  tree.makeFrom (tree.start path) path.names

/-- The tree with a content in the file `name` of a directory. -/
def writeText (tree : FileTree) (directory : Path) (name : String) (content : List Char) :
    Except FileError FileTree := do
  let names ← tree.resolve (directory.append [name])
  if tree.hasDirectory names then
    throw .isDirectory
  else
    return { tree with files := tree.files.filter (·.1 != names) ++ [(names, content)] }

/-- The names below a directory of the files and directories whose last name ends with
`suffix`, in the order of their names. -/
def namesBelow (tree : FileTree) (directory : List String) (suffix : String) :
    List (List String) :=
  let below := tree.files.flatMap fun (names, _) =>
    if directory.isPrefixOf names then
      let relative := names.drop directory.length
      (List.range relative.length).map fun count => relative.take (count + 1)
    else
      []
  let matching := below.filter fun names =>
    suffix.toList.isSuffixOf (names.getLast?.getD "").toList
  (matching.eraseDups).mergeSort fun a b => !List.lex b a

/-- The files and directories below the directory that a path leads to whose names end with
`suffix`. -/
def walk (tree : FileTree) (path : Path) (suffix : String) : List Path :=
  match tree.resolve path with
  | .ok directory => (tree.namesBelow directory suffix).map path.append
  | .error _ => []

/-- The files that a tree has and an earlier one has not, or with another content. -/
def changesSince (before after : FileTree) : List (List String × List Char) :=
  after.files.filter fun (names, content) => before.content? names != some content

/-- The directories that have been made since an earlier tree. -/
def directoriesSince (before after : FileTree) : List (List String) :=
  after.directories.filter fun names => !before.directories.contains names

end FileTree

end TriggerLang
