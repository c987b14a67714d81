import TriggerLang.Table

/-!
# Catalogs

A catalog lists the functions that a script may call, each with the parameters it takes
and the type it returns, and the names of the triggers that a script may declare.  One
catalog can be laid over another: its functions replace those of the same name.
-/

namespace TriggerLang

/-- The type that every value has and that every parameter accepts. -/
def anyType : String := "any"

/-- A parameter of a function: the field that holds the argument, and its type. -/
structure Parameter where
  field : String
  dataType : String
deriving DecidableEq, Repr

/-- A function that scripts may call. -/
structure Signature where
  key : String
  parameters : List Parameter := []
  returnType : String := anyType
  category : String := ""
  title : String := ""
deriving DecidableEq, Repr

namespace Signature

/-- The number of arguments of the function. -/
def arity (signature : Signature) : Nat :=
  signature.parameters.length

/-- The function is a statement. -/
def isAction (signature : Signature) : Bool :=
  signature.category == "action"

end Signature

/-- The functions that a script may call, each under its own name, and the triggers that it
may declare. -/
structure Catalog where
  functions : List (String × Signature) := []
  triggers : List String := []
  keyed : ∀ entry ∈ functions, entry.2.key = entry.1 := by simp

/-- What is wrong with the data of a catalog. -/
inductive CatalogError where
  /-- Two functions have the same name. -/
  | duplicate (key : String)
  /-- The functions are not listed by name. -/
  | functionsNotMapping
  /-- A function is not described by a mapping. -/
  | entryNotMapping (key : String)
  /-- The triggers are a single string. -/
  | triggersNotList
deriving DecidableEq, Repr

/-- The wording of a catalog error. -/
def CatalogError.message : CatalogError → String
  | .duplicate key => "Duplicate catalog function `" ++ key ++ "`"
  | .functionsNotMapping => "Catalog `functions` must be an object keyed by function name"
  | .entryNotMapping key => "Catalog entry `" ++ key ++ "` must be an object"
  | .triggersNotList => "Catalog `triggers` must be a list of names"

namespace Catalog

/-- The function called `key`. -/
def get? (catalog : Catalog) (key : String) : Option Signature :=
  catalog.functions.lookup key

theorem key_of_get? {catalog : Catalog} {key : String} {signature : Signature}
    (h : catalog.get? key = some signature) :
  signature.key = key
  := catalog.keyed _ (Table.mem_of_lookup h)

/-- The catalog has a function called `key`. -/
def contains (catalog : Catalog) (key : String) : Bool :=
  (catalog.get? key).isSome

/-- The catalog with one more function, whose name must be new. -/
def add (catalog : Catalog) (signature : Signature) : Except CatalogError Catalog :=
  if catalog.contains signature.key then
    .error (.duplicate signature.key)
  else
    .ok {
      catalog with
      functions := Table.set signature.key signature catalog.functions
      keyed := by
        intro entry h
        rcases Table.mem_set h with rfl | h
        · rfl
        · exact catalog.keyed entry h }

/-- The names of `more` added to `names`, none of them twice. -/
def addNames (names more : List String) : List String :=
  more.foldl (fun names name => if names.contains name then names else names ++ [name]) names

/-- The catalog of a list of signatures with distinct names. -/
def ofSignatures (signatures : List Signature) (triggers : List String) :
    Except CatalogError Catalog :=
  signatures.foldlM add { triggers := addNames [] triggers }

/-- The catalog with the functions and triggers of `other` laid over it. -/
def merge (catalog other : Catalog) : Catalog where
  functions := Table.setAll catalog.functions other.functions
  triggers := addNames catalog.triggers other.triggers
  keyed := by
    intro entry h
    rcases Table.mem_setAll h with h | h
    · exact catalog.keyed entry h
    · exact other.keyed entry h

/-- The functions in the order of their names. -/
def sortedSignatures (catalog : Catalog) : List Signature :=
  (catalog.functions.map (·.2)).mergeSort fun a b => decide (a.key ≤ b.key)

/-- The triggers in the order of their names. -/
def sortedTriggers (catalog : Catalog) : List String :=
  catalog.triggers.mergeSort fun a b => decide (a ≤ b)

end Catalog

end TriggerLang
