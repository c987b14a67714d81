import Mathlib.Tactic.Common
import TriggerLang.Document.Strip

/-!
# Fragments without reserved fields

Stripping leaves a fragment without reserved fields at any depth, whatever the effects set
on the way.  A fragment without reserved fields is left alone by plain stripping, and nothing
is bound in it.  So what has been stripped once is never changed by stripping it again.
-/

namespace TriggerLang

namespace FieldEffect

/-- Effects set no reserved field. -/
theorem isReserved_of_mem_writes
    {name : String} {fields : Fragment.Fields} {effect : FieldEffect} {write : String × String}
    (h : write ∈ writes name fields effect) :
  Fragment.isReserved write.1 = false
  := by
  cases effect with
  | record => cases h
  | mark =>
    simp only [writes] at h
    split at h
    · obtain rfl := List.mem_singleton.mp h
      simp [Fragment.isReserved]
    · cases h
  | bind table =>
    simp only [writes] at h
    split at h
    · simp only [List.mem_cons, List.not_mem_nil, or_false] at h
      rcases h with rfl | rfl <;> simp [Fragment.isReserved]
    · cases h

theorem isReserved_of_mem_allWrites
    {effects : List FieldEffect} {name : String} {fields : Fragment.Fields}
    {write : String × String} (h : write ∈ allWrites effects name fields) :
  Fragment.isReserved write.1 = false
  := by
  rcases Table.mem_setAll h with h | h
  · cases h
  · obtain ⟨effect, -, h⟩ := List.mem_flatMap.mp h
    exact isReserved_of_mem_writes h

/-- Nothing is bound in a mapping that is not the script's own entity. -/
theorem allWrites_bind_eq_nil
    {table : SideTable} {name : String} {fields : Fragment.Fields}
    (h : (Fragment.mapping fields).functionName? ≠ some thisEntityFunction) :
  allWrites [.bind table] name fields = []
  := by
  simp [allWrites, writes, bindingOf?, h, Table.ofEntries, Table.setAll]

end FieldEffect

namespace Fragment

/-- A field that is neither reserved nor written is stripped like any fragment of its name. -/
theorem lookup_stripFields {effects : List FieldEffect} {writes : List (String × String)}
    {key : String} (hkey : isReserved key = false) (hwrites : writes.lookup key = none)
    (fields : Fields) :
  (stripFields effects writes fields).value.lookup key
    = (fields.lookup key).map fun value => (strip effects key value).value
  := by
  induction fields with
  | nil => rfl
  | cons entry rest ih =>
    obtain ⟨field, value⟩ := entry
    rw [stripFields, List.lookup_cons]
    by_cases hfield : key = field
    · subst hfield
      simp [hkey, hwrites]
    · rw [beq_eq_false_iff_ne.mpr hfield]
      split
      · exact ih
      · split <;> rw [List.lookup_cons, beq_eq_false_iff_ne.mpr hfield, ih]

mutual

/-- No field of the fragment is reserved, at any depth. -/
def Unreserved : Fragment → Prop
  | .mapping fields => UnreservedFields fields
  | .list items => UnreservedItems items
  | _ => True

/-- No field of any of the fragments is reserved, at any depth. -/
def UnreservedItems : List Fragment → Prop
  | [] => True
  | item :: rest => item.Unreserved ∧ UnreservedItems rest

/-- None of the fields is reserved, and no field at any depth below them. -/
def UnreservedFields : Fields → Prop
  | [] => True
  | (field, value) :: rest =>
    isReserved field = false ∧ value.Unreserved ∧ UnreservedFields rest

end

theorem unreservedItems_iff {items : List Fragment} :
  UnreservedItems items ↔ ∀ item ∈ items, item.Unreserved
  := by
  induction items with
  | nil => simp [UnreservedItems]
  | cons item rest ih => simp [UnreservedItems, ih]

theorem unreservedFields_iff {fields : Fields} :
  UnreservedFields fields
    ↔ ∀ entry ∈ fields, isReserved entry.1 = false ∧ entry.2.Unreserved
  := by
  induction fields with
  | nil => simp [UnreservedFields]
  | cons entry rest ih =>
    obtain ⟨field, value⟩ := entry
    simp [UnreservedFields, ih, and_assoc]

theorem unreservedFields_append {fields others : Fields} (h : UnreservedFields fields)
    (hothers : UnreservedFields others) :
  UnreservedFields (fields ++ others)
  := by
  rw [unreservedFields_iff] at *
  intro entry hentry
  exact (List.mem_append.mp hentry).elim (h entry) (hothers entry)

theorem UnreservedFields.lookup_eq_none {fields : Fields} (h : UnreservedFields fields)
    {field : String} (hfield : isReserved field = true) :
  fields.lookup field = none
  := by
  apply Table.lookup_eq_none_of_notMem
  intro hmem
  obtain ⟨entry, hentry, rfl⟩ := List.mem_map.mp hmem
  rw [(unreservedFields_iff.mp h entry hentry).1] at hfield
  cases hfield

theorem Unreserved.get?_eq_none {fragment : Fragment} (h : fragment.Unreserved) {field : String}
    (hfield : isReserved field = true) :
  fragment.get? field = none
  := by
  cases fragment with
  | mapping fields => exact UnreservedFields.lookup_eq_none h hfield
  | _ => rfl

/-- A primitive value has no fields. -/
theorem unreserved_of_isPrimitive {fragment : Fragment} (h : fragment.isPrimitive = true) :
  fragment.Unreserved
  := by
  cases fragment <;> simp_all [isPrimitive, Unreserved]

/-- Setting a field that is not reserved to a string leaves a fragment without reserved
fields. -/
theorem Unreserved.setField {fragment : Fragment} (h : fragment.Unreserved) {field : String}
    (hfield : isReserved field = false) (value : String) :
  (fragment.setField field (.string value)).Unreserved
  := by
  cases fragment with
  | mapping fields =>
    rw [Fragment.setField, Unreserved, unreservedFields_iff]
    intro entry hentry
    rcases Table.mem_set hentry with rfl | hentry
    · exact ⟨hfield, trivial⟩
    · exact unreservedFields_iff.mp h entry hentry
  | _ => exact h

/-! ### Stripping -/

/-- The fields that effects add are not reserved. -/
theorem addWrites_unreserved
    {effects : List FieldEffect} {fields : Fields} {writes : List (String × String)}
    (h : ∀ write ∈ writes, isReserved write.1 = false) :
  UnreservedFields (addWrites effects fields writes).value
  := by
  rw [unreservedFields_iff]
  intro entry hentry
  obtain ⟨write, hwrite, rfl⟩ := List.mem_map.mp hentry
  exact ⟨h write (List.mem_filter.mp hwrite).1, trivial⟩

mutual

/-- Stripping leaves no reserved fields. -/
theorem strip_unreserved (effects : List FieldEffect) (name : String) (fragment : Fragment) :
  (strip effects name fragment).value.Unreserved
  := by
  match fragment with
  | .mapping fields =>
    rw [strip]
    apply unreservedFields_append
    · exact stripFields_unreserved effects _ fields
    · exact addWrites_unreserved fun _ => FieldEffect.isReserved_of_mem_allWrites
  | .list items =>
    rw [strip]
    exact stripItems_unreserved effects 0 items
  | .null | .boolean _ | .integer _ | .float _ | .string _ => trivial

theorem stripItems_unreserved (effects : List FieldEffect) (index : Nat)
    (items : List Fragment) :
  UnreservedItems (stripItems effects index items).value
  := by
  match items with
  | [] => trivial
  | item :: rest =>
    rw [stripItems]
    exact ⟨strip_unreserved effects _ item, stripItems_unreserved effects _ rest⟩

theorem stripFields_unreserved (effects : List FieldEffect) (writes : List (String × String))
    (fields : Fields) :
  UnreservedFields (stripFields effects writes fields).value
  := by
  match fields with
  | [] => trivial
  | (field, value) :: rest =>
    have hrest := stripFields_unreserved effects writes rest
    rw [stripFields]
    split
    · exact hrest
    · rename_i hfield
      have hfield := Bool.eq_false_iff.mpr hfield
      split
      · exact ⟨hfield, trivial, hrest⟩
      · exact ⟨hfield, strip_unreserved effects field value, hrest⟩

end

/-- The effects set nothing in a mapping without reserved fields. -/
def AreQuiet (effects : List FieldEffect) : Prop :=
  ∀ name fields, UnreservedFields fields → FieldEffect.allWrites effects name fields = []

theorem areQuiet_nil :
  AreQuiet []
  := fun _ _ _ => rfl

/-- The script's own entity is only bound where a reserved field gives its type. -/
theorem areQuiet_bind (table : SideTable) :
  AreQuiet [.bind table]
  := by
  intro name fields h
  have hdataType : fields.lookup dataTypeField = none := h.lookup_eq_none (by decide)
  have hbinding : FieldEffect.bindingOf? table fields = none := by
    simp [FieldEffect.bindingOf?, hdataType]
  simp [FieldEffect.allWrites, FieldEffect.writes, hbinding, Table.ofEntries, Table.setAll]

mutual

/-- A fragment without reserved fields is not changed by quiet effects. -/
theorem strip_of_unreserved {effects : List FieldEffect} (hquiet : AreQuiet effects)
    {fragment : Fragment} (name : String) (h : fragment.Unreserved) :
  (strip effects name fragment).value = fragment
  := by
  match fragment with
  | .mapping fields =>
    have hfields : (stripFields effects [] fields).value = fields :=
      stripFields_of_unreserved hquiet h
    simp only [strip, hquiet name fields h]
    change Fragment.mapping ((stripFields effects [] fields).value ++ []) = _
    rw [List.append_nil, hfields]
  | .list items =>
    have hitems : (stripItems effects 0 items).value = items := stripItems_of_unreserved hquiet 0 h
    simp only [strip, hitems]
  | .null | .boolean _ | .integer _ | .float _ | .string _ => rfl

theorem stripItems_of_unreserved {effects : List FieldEffect} (hquiet : AreQuiet effects)
    {items : List Fragment} (index : Nat) (h : UnreservedItems items) :
  (stripItems effects index items).value = items
  := by
  match items with
  | [] => rfl
  | item :: rest =>
    simp only [stripItems, strip_of_unreserved hquiet _ h.1, stripItems_of_unreserved hquiet _ h.2]

theorem stripFields_of_unreserved {effects : List FieldEffect} (hquiet : AreQuiet effects)
    {fields : Fields} (h : UnreservedFields fields) :
  (stripFields effects [] fields).value = fields
  := by
  match fields with
  | [] => rfl
  | (field, value) :: rest =>
    obtain ⟨hfield, hvalue, hrest⟩ := h
    simp only [stripFields, hfield, List.lookup_nil, strip_of_unreserved hquiet _ hvalue,
      stripFields_of_unreserved hquiet hrest]
    simp

end

theorem stripReserved_of_unreserved {fragment : Fragment} (h : fragment.Unreserved) :
  fragment.stripReserved = fragment
  := strip_of_unreserved areQuiet_nil "" h

theorem postProcess_of_unreserved (table : SideTable) {fragment : Fragment}
    (h : fragment.Unreserved) :
  fragment.postProcess table = fragment
  := strip_of_unreserved (areQuiet_bind table) "" h

theorem postProcess_unreserved (table : SideTable) (fragment : Fragment) :
  (fragment.postProcess table).Unreserved
  := strip_unreserved _ "" fragment

end Fragment

end TriggerLang
