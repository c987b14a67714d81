import TriggerLang.Catalog.Basic
import TriggerLang.Fragment.Shape

/-!
# Reading catalogs

A catalog is read from a mapping with the functions by name under `functions` and a list
of names under `triggers`; either may be absent.  A function is a mapping that may have
`params`, each with a `field` and a `dataType`, a `returnType`, a `category` and a
`title`.
-/

namespace TriggerLang

/-- Data is no catalog. -/
inductive CatalogFault where
  | invalid (error : CatalogError)
  | shape (error : ShapeError)
deriving DecidableEq, Repr

instance : Coe CatalogError CatalogFault :=
  ⟨.invalid⟩

/-- A shape error as a fault of a catalog. -/
def shapeFault {α : Type} (result : Except ShapeError α) : Except CatalogFault α :=
  result.mapError .shape

namespace Parameter

/-- The parameter that a fragment describes. -/
def ofFragment? (data : Fragment) : Except ShapeError Parameter := do
  let field ← data.require "field"
  return ⟨field.plain, (← data.fields?) |> Fragment.plainField "dataType" anyType⟩

end Parameter

namespace Signature

/-- The function `key` that a fragment describes. -/
def ofFragment? (key : String) (data : Fragment) : Except CatalogFault Signature :=
  match data with
  | .mapping fields => do
    let list ← shapeFault ((fields.lookup "params").getD (.list [])).elements?
    let parameters ← shapeFault (list.mapM Parameter.ofFragment?)
    return {
      key
      parameters
      returnType := Fragment.plainField "returnType" anyType fields
      category := Fragment.plainField "category" "" fields
      title := Fragment.plainField "title" "" fields }
  | _ => .error (.invalid (.entryNotMapping key))

end Signature

namespace Catalog

/-- The catalog that a fragment describes. -/
def ofFragment? (data : Fragment) : Except CatalogFault Catalog := do
  let fields ← shapeFault data.fields?
  let .mapping entries := (fields.lookup "functions").getD (.mapping [])
    | throw (.invalid .functionsNotMapping)
  let signatures ← entries.mapM fun (key, entry) => Signature.ofFragment? key entry
  let triggers := (fields.lookup "triggers").getD (.list [])
  if let .string _ := triggers then
    throw (.invalid .triggersNotList)
  let names ← shapeFault triggers.elements?
  (ofSignatures signatures (names.map Fragment.plain)).mapError .invalid

end Catalog

end TriggerLang
