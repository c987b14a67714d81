import TriggerLang.Fragment.Shape

/-!
# Side tables

A side table says which entity of the game a script means by its own entity: one entity
for every type that the entity may be asked for as.  Of two bindings of one type the
first one counts.
-/

namespace TriggerLang

/-- The entity that stands for the script's own entity where `dataType` is asked for. -/
structure Binding where
  dataType : String
  entity : String
  key : String
deriving DecidableEq, Repr

/-- The bindings of the script's own entity. -/
structure SideTable where
  thisEntity : List Binding := []
deriving DecidableEq, Repr

/-- The binding that a fragment describes. -/
def Binding.ofFragment? (data : Fragment) : Except ShapeError Binding := do
  let dataType ← data.require "dataType"
  let entity ← data.require "entity"
  let key ← data.require "key"
  return ⟨dataType.plain, entity.plain, key.plain⟩

namespace SideTable

/-- The first binding of a type. -/
def bindingFor? (table : SideTable) (dataType : String) : Option Binding :=
  table.thisEntity.find? (·.dataType == dataType)

/-- The side table that a fragment describes. -/
def ofFragment? (data : Fragment) : Except ShapeError SideTable := do
  let fields ← data.fields?
  let entries ← ((fields.lookup "thisEntity").getD (.list [])).elements?
  return ⟨← entries.mapM Binding.ofFragment?⟩

end SideTable

end TriggerLang
