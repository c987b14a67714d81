import TriggerLang.Proofs.Document.Processed

/-!
# Binding the script's own entity

Stripping visits the fields of a mapping one by one, and the effect that binds the script's own
entity writes into a mapping before its fields are visited.  All this comes to a plain recursion
over the fragment: wherever the script's own entity stands, at any depth and within the fields of
other entities too, the entity and the key of its binding are set, and the reserved fields are
left out.  No trace of a binding's type remains, so processing a fragment once more changes
nothing.
-/

namespace TriggerLang.Fragment

/-- The binding of a mapping that is the script's own entity: the first one for the type that
the entity is asked for as. -/
def ownBinding? (table : SideTable) (fields : Fields) : Option Binding :=
  match fields.lookup "function", fields.lookup "_dataType" with
  | some (.string function), some (.string dataType) =>
    if function = "thisEntity" then table.thisEntity.find? (·.dataType = dataType) else none
  | _, _ => none

/-- The fields with the entity and the key of a binding set, if there is one. -/
def setBinding (fields : Fields) : Option Binding → Fields
  | some binding =>
    Table.set "key" (.string binding.key) (Table.set "entity" (.string binding.entity) fields)
  | none => fields

mutual

/-- The fragment without its reserved fields, and with the entity and the key of its binding
set wherever the script's own entity stands. -/
def bound (table : SideTable) : Fragment → Fragment
  | .mapping fields => .mapping (setBinding (boundFields table fields) (ownBinding? table fields))
  | .list items => .list (boundItems table items)
  | fragment => fragment

/-- Every item with its entities bound and without its reserved fields. -/
def boundItems (table : SideTable) : List Fragment → List Fragment
  | [] => []
  | item :: rest => item.bound table :: boundItems table rest

/-- The fields that are not reserved, with their values bound. -/
def boundFields (table : SideTable) : Fields → Fields
  | [] => []
  | (field, value) :: rest =>
    if isReserved field then
      boundFields table rest
    else
      (field, value.bound table) :: boundFields table rest

end

mutual

/-- No mapping in the fragment has a field twice. -/
def Keyed : Fragment → Prop
  | .mapping fields => (Table.keys fields).Nodup ∧ KeyedFields fields
  | .list items => KeyedItems items
  | _ => True

/-- No mapping in any of the fragments has a field twice. -/
def KeyedItems : List Fragment → Prop
  | [] => True
  | item :: rest => item.Keyed ∧ KeyedItems rest

/-- No mapping in any of the values has a field twice. -/
def KeyedFields : Fields → Prop
  | [] => True
  | (_, value) :: rest => value.Keyed ∧ KeyedFields rest

end

section

variable (table : SideTable)

theorem bindingOf?_eq (fields : Fields) :
  FieldEffect.bindingOf? table fields = ownBinding? table fields
  := by
  rw [FieldEffect.bindingOf?, ownBinding?, functionName?, get?, dataTypeField]
  cases fields.lookup "function" with
  | none => rfl
  | some function =>
    cases function with
    | string name =>
      cases fields.lookup "_dataType" with
      | none => simp
      | some dataType => cases dataType <;> simp [thisEntityFunction, SideTable.bindingFor?]; rfl
    | _ => rfl

/-- What is set when the script's own entity is bound. -/
theorem allWrites_bind (name : String) (fields : Fields) :
  FieldEffect.allWrites [.bind table] name fields
    = (ownBinding? table fields).elim []
      fun binding => [("entity", binding.entity), ("key", binding.key)]
  := by
  rw [FieldEffect.allWrites, List.flatMap_singleton, FieldEffect.writes, bindingOf?_eq]
  cases ownBinding? table fields <;> rfl

/-- The fields of a binding are set in place, or else appended. -/
theorem keys_processedFields_of_binding (name : String) {fields : Fields} {binding : Binding}
    (h : ownBinding? table fields = some binding) :
  Table.keys (processedFields table name fields)
    = Table.keys (setBinding (stripFields [.bind table] [] fields).value (some binding))
  := by
  have hentity : isReserved "entity" = false := by decide
  have hkey : isReserved "key" = false := by decide
  rw [setBinding, Table.keys_set, Table.keys_set, processedFields, allWrites_bind, h, Table.keys,
    List.map_append, ← Table.keys, keys_stripFields, keys_stripFields, addWrites]
  by_cases hmem : "entity" ∈ Table.keys fields <;>
    by_cases hmem' : "key" ∈ Table.keys fields <;>
    simp [Table.isNone_lookup, hmem, hmem', hentity, hkey]

/-- The fields of a binding are set, and every other field is what it is without the binding. -/
theorem lookup_processedFields_of_binding (name : String) {fields : Fields} {binding : Binding}
    (h : ownBinding? table fields = some binding) (field : String) :
  (processedFields table name fields).lookup field
    = (setBinding (stripFields [.bind table] [] fields).value (some binding)).lookup field
  := by
  have hwrites : FieldEffect.allWrites [.bind table] name fields
      = [("entity", binding.entity), ("key", binding.key)] := by
    rw [allWrites_bind, h]
    rfl
  by_cases hkey : field = "key"
  · rw [setBinding, hkey, Table.lookup_set_self, processedFields, hwrites]
    apply lookup_append_addWrites
    · decide
    · rfl
  · by_cases hentity : field = "entity"
    · rw [setBinding, hentity, Table.lookup_set_of_ne (by decide), Table.lookup_set_self,
        processedFields, hwrites]
      apply lookup_append_addWrites
      · decide
      · rfl
    · rw [setBinding, Table.lookup_set_of_ne hkey, Table.lookup_set_of_ne hentity]
      cases hreserved : isReserved field with
      | true =>
        rw [Table.lookup_eq_none_of_notMem, Table.lookup_eq_none_of_notMem]
        · simp [keys_stripFields, hreserved]
        · intro hmem
          rw [isReserved_of_mem_keys_processedFields table name hmem] at hreserved
          cases hreserved
      | false =>
        rw [lookup_processedFields table name hreserved (by simp [hkey, hentity]),
          lookup_stripFields hreserved List.lookup_nil]

/-- Processing a mapping is stripping it, and then setting the fields of its binding. -/
theorem processedFields_eq (name : String) {fields : Fields} (h : (Table.keys fields).Nodup) :
  processedFields table name fields
    = setBinding (stripFields [.bind table] [] fields).value (ownBinding? table fields)
  := by
  cases hbinding : ownBinding? table fields with
  | none =>
    rw [processedFields, allWrites_bind, hbinding]
    exact List.append_nil _
  | some binding =>
    apply Table.ext
    · exact keys_processedFields_of_binding table name hbinding
    · exact nodup_keys_processedFields table name h
    · exact lookup_processedFields_of_binding table name hbinding

mutual

/-- Processing is binding the script's own entity and leaving out the reserved fields, under
whatever name the fragment stands. -/
theorem strip_eq_bound (name : String) {fragment : Fragment} (h : fragment.Keyed) :
  (strip [.bind table] name fragment).value = fragment.bound table
  := by
  match fragment with
  | .mapping fields =>
    rw [strip_eq_processedFields, processedFields_eq table name h.1, stripFields_eq_bound h.2,
      bound]
  | .list items =>
    rw [strip, bound]
    exact congrArg list (stripItems_eq_bound 0 h)
  | .null | .boolean _ | .integer _ | .float _ | .string _ => rfl

theorem stripItems_eq_bound (index : Nat) {items : List Fragment} (h : KeyedItems items) :
  (stripItems [.bind table] index items).value = boundItems table items
  := by
  match items with
  | [] => rfl
  | item :: rest =>
    rw [stripItems, boundItems, ← strip_eq_bound _ h.1, ← stripItems_eq_bound (index + 1) h.2]

theorem stripFields_eq_bound {fields : Fields} (h : KeyedFields fields) :
  (stripFields [.bind table] [] fields).value = boundFields table fields
  := by
  match fields with
  | [] => rfl
  | (field, value) :: rest =>
    rw [stripFields, boundFields, ← strip_eq_bound field h.1, ← stripFields_eq_bound h.2]
    split <;> rfl

end

/-- Processing a fragment is the recursion that binds the script's own entity and leaves out the
reserved fields.  So nothing reserved remains at any depth, and what has been processed is not
changed by processing it again, whatever entities are bound then. -/
theorem postProcess_eq_bound {fragment : Fragment} (h : fragment.Keyed) :
  fragment.postProcess table = fragment.bound table
    ∧ (fragment.postProcess table).Unreserved
    ∧ ∀ other, (fragment.postProcess table).postProcess other = fragment.postProcess table
  := by
  have hunreserved := postProcess_unreserved table fragment
  exact ⟨strip_eq_bound table "" h, hunreserved,
    fun other => postProcess_of_unreserved other hunreserved⟩

/-- An entity within the field of another one is bound as well, the first binding of a type
counts, and the old entity of a mapping is replaced where it stands. -/
theorem postProcess_nested_entity :
  let inner := mapping [("_dataType", .string "player"), ("function", .string "thisEntity")]
  let outer := mapping [("_note", inner), ("entity", inner), ("function", .string "thisEntity"),
    ("_dataType", .string "unit"), ("of", .list [inner])]
  let table : SideTable :=
    ⟨[⟨"player", "Ada", "p1"⟩, ⟨"unit", "Golem", "u1"⟩, ⟨"unit", "Wolf", "u2"⟩]⟩
  outer.Keyed ∧ outer.postProcess table
    = .mapping [("entity", .string "Golem"), ("function", .string "thisEntity"),
        ("of", .list [.mapping [("function", .string "thisEntity"), ("entity", .string "Ada"),
          ("key", .string "p1")]]), ("key", .string "u1")]
  := by
  intro inner outer table
  have hkeyed : outer.Keyed := by
    simp [outer, inner, Keyed, KeyedFields, KeyedItems, Table.keys]
  refine ⟨hkeyed, (postProcess_eq_bound table hkeyed).1.trans ?_⟩
  rfl

end

end TriggerLang.Fragment
