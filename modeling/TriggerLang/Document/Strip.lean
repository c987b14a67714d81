import TriggerLang.Document.SideTable
import TriggerLang.Typing.DataType

/-!
# Stripping reserved fields

Stripping a fragment drops its reserved fields at every depth.  On the way every value
that is kept is visited, from the outside in and from left to right, under the name of
its field or its place in its list; the whole fragment is visited under the empty name.
An effect can note the visit, or set fields of a visited mapping before they are visited
in turn.
-/

namespace TriggerLang

/-- Something done at every visit. -/
inductive FieldEffect where
  /-- Note the name under which the value is visited. -/
  | record
  /-- Set `marked` to that name in a mapping with a field `_mark`. -/
  | mark
  /-- Set the entity that the script's own entity is bound to. -/
  | bind (table : SideTable)
deriving DecidableEq, Repr

namespace FieldEffect

/-- The binding of the mapping with the given fields, if it is the script's own entity asked
for as a type that has one. -/
def bindingOf? (table : SideTable) (fields : Fragment.Fields) : Option Binding :=
  if (Fragment.mapping fields).functionName? = some thisEntityFunction then
    match fields.lookup dataTypeField with
    | some (.string dataType) => table.bindingFor? dataType
    | _ => none
  else
    none

/-- The fields that an effect sets in a mapping visited under `name`. -/
def writes (name : String) (fields : Fragment.Fields) : FieldEffect → List (String × String)
  | .record => []
  | .mark => if (fields.lookup "_mark").isSome then [("marked", name)] else []
  | .bind table =>
    match bindingOf? table fields with
    | some binding => [("entity", binding.entity), ("key", binding.key)]
    | none => []

/-- The notes that effects take of a visit under `name`. -/
def notes (effects : List FieldEffect) (name : String) : List String :=
  effects.flatMap fun effect => if effect = .record then [name] else []

/-- The fields that effects set in a mapping visited under `name`, none of them twice. -/
def allWrites (effects : List FieldEffect) (name : String) (fields : Fragment.Fields) :
    List (String × String) :=
  Table.ofEntries (effects.flatMap (writes name fields))

end FieldEffect

/-- A stripped value with the names noted while it was stripped. -/
structure Stripped (α : Type) where
  value : α
  visited : List String

namespace Fragment

/-- The written fields that are not among `fields`, in turn visited. -/
def addWrites (effects : List FieldEffect) (fields : Fields) (writes : List (String × String)) :
    Stripped Fields :=
  let added := writes.filter fun write => (fields.lookup write.1).isNone
  ⟨added.map fun write => (write.1, .string write.2),
    added.flatMap fun write => FieldEffect.notes effects write.1⟩

mutual

/-- The fragment, visited under `name`, without its reserved fields. -/
def strip (effects : List FieldEffect) (name : String) : Fragment → Stripped Fragment
  | .mapping fields =>
    let writes := FieldEffect.allWrites effects name fields
    let kept := stripFields effects writes fields
    let added := addWrites effects fields writes
    ⟨.mapping (kept.value ++ added.value),
      FieldEffect.notes effects name ++ kept.visited ++ added.visited⟩
  | .list items =>
    let kept := stripItems effects 0 items
    ⟨.list kept.value, FieldEffect.notes effects name ++ kept.visited⟩
  | fragment => ⟨fragment, FieldEffect.notes effects name⟩

/-- The items of a list from the place `index` on, without their reserved fields. -/
def stripItems (effects : List FieldEffect) (index : Nat) :
    List Fragment → Stripped (List Fragment)
  | [] => ⟨[], []⟩
  | item :: rest =>
    let first := strip effects (String.ofList (Nat.toDigits 10 index)) item
    let others := stripItems effects (index + 1) rest
    ⟨first.value :: others.value, first.visited ++ others.visited⟩

/-- The fields that are not reserved, with the written ones in place of the old ones. -/
def stripFields (effects : List FieldEffect) (writes : List (String × String)) :
    Fields → Stripped Fields
  | [] => ⟨[], []⟩
  | (field, value) :: rest =>
    let others := stripFields effects writes rest
    if isReserved field then
      others
    else
      match writes.lookup field with
      | some written =>
        ⟨(field, .string written) :: others.value,
          FieldEffect.notes effects field ++ others.visited⟩
      | none =>
        let first := strip effects field value
        ⟨(field, first.value) :: others.value, first.visited ++ others.visited⟩

end

/-- The fragment without its reserved fields. -/
def stripReserved (fragment : Fragment) : Fragment :=
  (strip [] "" fragment).value

/-- The fragment with the script's own entity bound, without its reserved fields. -/
def postProcess (table : SideTable) (fragment : Fragment) : Fragment :=
  (strip [.bind table] "" fragment).value

end Fragment

end TriggerLang
