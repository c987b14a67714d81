import TriggerLang.Proofs.Document.Reserved

/-!
# Processed fragments

Before a fragment becomes part of a document it is processed: its reserved fields are stripped
and the script's own entity is bound.
-/

namespace TriggerLang

/-- Binding the script's own entity sets two fields. -/
theorem FieldEffect.of_mem_allWrites_bind {table : SideTable} {name : String}
    {fields : Fragment.Fields} {write : String × String}
    (h : write ∈ allWrites [.bind table] name fields) :
  write.1 = "entity" ∨ write.1 = "key"
  := by
  rcases Table.mem_setAll h with h | h
  · cases h
  · obtain ⟨effect, heffect, h⟩ := List.mem_flatMap.mp h
    obtain rfl := List.mem_singleton.mp heffect
    simp only [writes] at h
    split at h
    · simp only [List.mem_cons, List.not_mem_nil, or_false] at h
      exact h.imp (congrArg Prod.fst) (congrArg Prod.fst)
    · cases h

namespace Fragment

/-! ### Fields of stripped mappings -/

/-- A mapping other than the script's own entity only loses fields. -/
theorem strip_mapping {fields : Fields} (table : SideTable)
    (h : (mapping fields).functionName? ≠ some thisEntityFunction) (name : String) :
  (strip [.bind table] name (.mapping fields)).value
    = .mapping (stripFields [.bind table] [] fields).value
  := by
  rw [strip, FieldEffect.allWrites_bind_eq_nil h]
  exact congrArg mapping (List.append_nil _)

theorem keys_stripFields (effects : List FieldEffect) (writes : List (String × String))
    (fields : Fields) :
  Table.keys (stripFields effects writes fields).value
    = (Table.keys fields).filter fun key => !isReserved key
  := by
  induction fields with
  | nil => rfl
  | cons entry rest ih =>
    obtain ⟨field, value⟩ := entry
    rw [Table.keys] at ih
    cases hfield : isReserved field with
    | true => simp [stripFields, Table.keys, hfield, ih]
    | false =>
      cases hwrite : writes.lookup field <;>
        simp [stripFields, Table.keys, hfield, hwrite, ih]

/-- What is written in a field that is not there does not matter. -/
theorem stripFields_filter {effects : List FieldEffect} {field : String} {fields : Fields}
    (h : field ∉ Table.keys fields) (writes : List (String × String)) :
  stripFields effects (writes.filter (·.1 != field)) fields = stripFields effects writes fields
  := by
  induction fields with
  | nil => rfl
  | cons entry rest ih =>
    obtain ⟨key, value⟩ := entry
    obtain ⟨hne, hrest⟩ : field ≠ key ∧ field ∉ Table.keys rest := by
      simpa [Table.keys] using h
    have hlookup : (writes.filter (·.1 != field)).lookup key = writes.lookup key :=
      Table.lookup_filter (· != field) (by simpa using hne.symm) writes
    rw [stripFields, stripFields, ih hrest, hlookup]

/-- A field that is there is not added. -/
theorem addWrites_cons {effects : List FieldEffect} (field : String) (value : Fragment)
    (rest : Fields) (writes : List (String × String)) :
  addWrites effects ((field, value) :: rest) writes
    = addWrites effects rest (writes.filter (·.1 != field))
  := by
  have hadded : (writes.filter fun write => (((field, value) :: rest).lookup write.1).isNone)
      = (writes.filter (·.1 != field)).filter fun write => (rest.lookup write.1).isNone := by
    rw [List.filter_filter]
    apply List.filter_congr
    intro write _
    rw [List.lookup_cons, bne]
    cases write.1 == field <;> simp
  rw [addWrites, addWrites, hadded]

/-- A written field that was there has what is written in it. -/
theorem lookup_stripFields_of_write {effects : List FieldEffect} {writes : List (String × String)}
    {key written : String} (hkey : isReserved key = false) (hwrite : writes.lookup key = some written)
    (fields : Fields) :
  (stripFields effects writes fields).value.lookup key
    = (fields.lookup key).map fun _ => .string written
  := by
  induction fields with
  | nil => rfl
  | cons entry rest ih =>
    obtain ⟨field, value⟩ := entry
    rw [stripFields, List.lookup_cons]
    by_cases hfield : key = field
    · subst hfield
      simp [hkey, hwrite]
    · rw [beq_eq_false_iff_ne.mpr hfield]
      split
      · exact ih
      · split <;> rw [List.lookup_cons, beq_eq_false_iff_ne.mpr hfield, ih]

/-- A written field has what is written in it, in place of an old value or after all fields. -/
theorem lookup_append_addWrites {effects : List FieldEffect} {writes : List (String × String)}
    {key written : String} (hkey : isReserved key = false) (hwrite : writes.lookup key = some written)
    (fields : Fields) :
  ((stripFields effects writes fields).value ++ (addWrites effects fields writes).value).lookup key
    = some (.string written)
  := by
  rw [List.lookup_append, lookup_stripFields_of_write hkey hwrite]
  cases hvalue : fields.lookup key with
  | some value => rfl
  | none =>
    have hadded : (writes.filter fun write => (fields.lookup write.1).isNone).lookup key
        = some written := by
      rw [Table.lookup_filter (fun key => (fields.lookup key).isNone) (by rw [hvalue]; rfl),
        hwrite]
    rw [addWrites, Table.lookup_map_snd, hadded]
    rfl

/-- The fields of a mapping after stripping it and binding the script's own entity. -/
def processedFields (table : SideTable) (name : String) (fields : Fields) : Fields :=
  let writes := FieldEffect.allWrites [.bind table] name fields
  (stripFields [.bind table] writes fields).value ++ (addWrites [.bind table] fields writes).value

section

variable (table : SideTable) (name : String)

theorem strip_eq_processedFields (fields : Fields) :
  (strip [.bind table] name (.mapping fields)).value = .mapping (processedFields table name fields)
  := by
  rw [strip]
  rfl

/-- The fields that binding an entity adds were not there. -/
theorem of_mem_keys_addWrites {fields : Fields} {key : String}
    (h : key ∈ Table.keys (addWrites [.bind table] fields
      (FieldEffect.allWrites [.bind table] name fields)).value) :
  key ∉ Table.keys fields ∧ (key = "entity" ∨ key = "key")
  := by
  obtain ⟨entry, hentry, rfl⟩ := List.mem_map.mp h
  obtain ⟨write, hwrite, rfl⟩ := List.mem_map.mp hentry
  obtain ⟨hwrite, habsent⟩ := List.mem_filter.mp hwrite
  rw [Table.isNone_lookup, decide_eq_true_iff] at habsent
  exact ⟨habsent, FieldEffect.of_mem_allWrites_bind hwrite⟩

/-- Processing adds no fields but those of an entity. -/
theorem of_mem_keys_processedFields {fields : Fields} {key : String}
    (h : key ∈ Table.keys (processedFields table name fields)) :
  key ∈ Table.keys fields ∨ key = "entity" ∨ key = "key"
  := by
  rw [processedFields, Table.keys, List.map_append, List.mem_append] at h
  rcases h with h | h
  · left
    rw [← Table.keys, keys_stripFields] at h
    exact (List.mem_filter.mp h).1
  · exact .inr (of_mem_keys_addWrites table name h).2

/-- No field is reserved after processing. -/
theorem isReserved_of_mem_keys_processedFields {fields : Fields} {key : String}
    (h : key ∈ Table.keys (processedFields table name fields)) :
  isReserved key = false
  := by
  have hunreserved := strip_unreserved [.bind table] name (.mapping fields)
  rw [strip_eq_processedFields, Unreserved, unreservedFields_iff] at hunreserved
  obtain ⟨entry, hentry, rfl⟩ := List.mem_map.mp h
  exact (hunreserved entry hentry).1

theorem nodup_keys_processedFields {fields : Fields} (h : (Table.keys fields).Nodup) :
  (Table.keys (processedFields table name fields)).Nodup
  := by
  rw [processedFields, Table.keys, List.map_append, List.nodup_append]
  refine ⟨?_, ?_, ?_⟩
  · have hfilter := h.filter fun key => !isReserved key
    rwa [← keys_stripFields [.bind table] (FieldEffect.allWrites [.bind table] name fields)]
      at hfilter
  · rw [addWrites, List.map_map]
    exact (List.filter_sublist.map Prod.fst).nodup
      (Table.nodup_keys_setAll (by simp [Table.keys]) _)
  · rintro a ha b hb rfl
    rw [← Table.keys, keys_stripFields] at ha
    exact (of_mem_keys_addWrites table name hb).1 (List.mem_filter.mp ha).1

/-- A field that is neither reserved nor one of an entity is processed like any fragment of its
name. -/
theorem lookup_processedFields {key : String} (hreserved : isReserved key = false)
    (hentity : key ∉ ["entity", "key"]) (fields : Fields) :
  (processedFields table name fields).lookup key
    = (fields.lookup key).map fun value => (strip [.bind table] key value).value
  := by
  have hwrites : (FieldEffect.allWrites [.bind table] name fields).lookup key = none := by
    rw [List.lookup_eq_none_iff]
    intro write hwrite
    rcases FieldEffect.of_mem_allWrites_bind hwrite with heq | heq <;> simp_all
  have hadded : (addWrites [.bind table] fields
      (FieldEffect.allWrites [.bind table] name fields)).value.lookup key = none := by
    apply Table.lookup_eq_none_of_notMem
    intro hmem
    exact hentity (by simpa using (of_mem_keys_addWrites table name hmem).2)
  rw [processedFields, List.lookup_append, lookup_stripFields hreserved hwrites, hadded,
    Option.or_none]

end

end Fragment

end TriggerLang
