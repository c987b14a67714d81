import TriggerLang.Proofs.Render.Total

/-!
# Catalogs that cannot do harm

A catalog may list any names of functions and of fields, also those by which fragments are told
apart.  If it leaves these alone, whatever a line is derived as can be rendered as an action.
-/

namespace TriggerLang

/-- No call of a function is taken for something else once it is part of a document: no function
is called like the one of calculations, no argument takes the place of the name that is called,
be it before or after the call is published, and no call looks like a block. -/
structure Catalog.Harmless (catalog : Catalog) : Prop where
  noCalculate : catalog.get? calculateFunction = none
  noNameField : ∀ entry ∈ catalog.functions, ∀ p ∈ entry.2.parameters,
    p.field ∉ ["function", "type"]
  noBlock : ∀ entry ∈ catalog.functions, entry.1 = "condition" →
    ∀ p ∈ entry.2.parameters, p.field ≠ "then"

namespace Fragment

theorem Renderable.labelled {f : Fragment} (h : f.Renderable) (label : Option String) :
  (f.labelled label).Renderable
  := by
  cases label with
  | none => exact h
  | some dataType =>
    rw [Fragment.labelled]
    split
    · exact h.setField (by decide) dataType
    · exact h

namespace Performable

theorem primitive {f : Fragment} (h : f.isPrimitive = true) :
  f.Performable
  := by
  refine ⟨.primitive h, ?_⟩
  rintro fields rfl
  cases h

theorem condition (op : Operator) (operandType : String) {left right : Fragment}
    (hleft : left.Performable) (hright : right.Performable) :
  (list [op.header operandType, left, right]).Performable
  := ⟨.condition op operandType hleft.renderable hright.renderable, nofun⟩

theorem calculation (op : Operator) {left right : Fragment} (hleft : left.Performable)
    (hright : right.Performable) :
  (op.calculation left right).Performable
  := by
  have huntyped : Untyped [("function", .string calculateFunction),
      ("items", .list [.mapping [("operator", .string op.name)], left, right])] :=
    ⟨by simp [Table.keys], by simp [Table.keys]⟩
  refine ⟨.calculation op huntyped rfl rfl hleft.renderable hright.renderable, ?_⟩
  rintro fields ⟨⟩
  exact ⟨calculateFunction, rfl, by simp [Table.keys]⟩

theorem apply (catalog : Catalog) (op : Operator) {left right : Fragment}
    (hleft : left.Performable) (hright : right.Performable) :
  (op.apply catalog left right).Performable
  := by
  obtain ⟨operandType, heq⟩ | heq := op.apply_eq_or catalog left right
  · rw [heq]
    exact condition op operandType hleft hright
  · rw [heq]
    exact calculation op hleft hright

theorem negate {f : Fragment} (h : f.Performable) :
  (negate f).Performable
  := by
  cases f with
  | integer | float => exact primitive rfl
  | _ => exact calculation .multiply (primitive rfl) h

/-- A call can be performed whose fields name the function and hold its arguments. -/
theorem call {name : String} {fields : Fields} (hnodup : (Table.keys fields).Nodup)
    (hfunction : fields.lookup "function" = some (.string name)) (hname : name ≠ calculateFunction)
    (hkeys : "type" ∉ Table.keys fields) (hblock : name = "condition" → "then" ∉ Table.keys fields)
    (hfields : ∀ entry ∈ fields, entry.2.Renderable) :
  (mapping fields).Performable
  := by
  refine ⟨.call ⟨hnodup, hkeys⟩ hfunction hname hfields, ?_⟩
  rintro _ ⟨⟩
  exact ⟨name, hfunction, hblock⟩

end Performable

end Fragment

namespace Grammar

open Fragment (Performable)

variable {scope : Parse.Scope} (hcatalog : scope.catalog.Harmless)

include hcatalog

/-- A call of a function of the catalog can be performed. -/
theorem performable_callOf {name : String} {signature : Signature} {fs : List Fragment}
    (hfunction : scope.catalog.get? name = some signature)
    (harity : fs.length = signature.parameters.length) (hfs : ∀ f ∈ fs, f.Performable) :
  (callOf signature fs).Performable
  := by
  have hmem := Table.mem_of_lookup hfunction
  have hentries : Table.keys (argumentEntries signature.parameters fs)
      = signature.parameters.map Parameter.field := keys_argumentEntries harity
  -- beside the name of the function there are the arguments
  have hkeys : ∀ {key : String}, key ≠ "function" →
      (∀ p ∈ signature.parameters, p.field ≠ key) →
      key ∉ Table.keys (fieldsOf signature.key signature.parameters fs) := by
    intro key hne hfield hkey
    obtain ⟨entry, hentry, rfl⟩ := List.mem_map.mp hkey
    rw [fieldsOf_eq] at hentry
    rcases Table.mem_setAll hentry with hentry | hentry
    · obtain rfl := List.mem_singleton.mp hentry
      exact hne rfl
    · have hparameter : entry.1 ∈ signature.parameters.map Parameter.field :=
        hentries ▸ List.mem_map_of_mem hentry
      obtain ⟨p, hp, heq⟩ := List.mem_map.mp hparameter
      exact hfield p hp heq
  have hnameField := hcatalog.noNameField _ hmem
  simp only [List.mem_cons, List.not_mem_nil, or_false, not_or] at hnameField
  have hkey : signature.key = name := Catalog.key_of_get? hfunction
  apply Performable.call
  · rw [fieldsOf_eq]
    exact nodup_keys_callFields _ _
  · rw [fieldsOf_eq]
    apply lookup_function
    rw [hentries, List.mem_map]
    rintro ⟨p, hp, heq⟩
    exact (hnameField p hp).1 heq
  · rintro hcalculate
    rw [← hkey, hcalculate, hcatalog.noCalculate] at hfunction
    cases hfunction
  · exact hkeys (by decide) fun p hp => (hnameField p hp).2
  · intro hcondition
    exact hkeys (by decide) (hcatalog.noBlock _ hmem (hkey.symm.trans hcondition))
  · intro entry hentry
    rw [fieldsOf_eq] at hentry
    rcases Table.mem_setAll hentry with hentry | hentry
    · obtain rfl := List.mem_singleton.mp hentry
      exact .primitive rfl
    · obtain ⟨argument, hargument, rfl⟩ := List.mem_map.mp hentry
      exact (hfs argument.2 (List.of_mem_zip hargument).2).renderable.labelled
        (some argument.1.dataType)

/-- What is derived can be performed. -/
theorem Derives.performable {phrase : Phrase} {ts : List Terminal}
    (h : Derives scope phrase ts) :
  phrase.All Performable
  := by
  induction h with
  | loosen _ _ ih => exact ih
  | binary _ _ _ ihleft ihright => exact .apply _ _ ihleft ihright
  | negative _ _ ih => exact .negate ih
  | group _ _ _ ih => exact ih
  | call _ _ hfunction harity _ _ _ ih => exact performable_callOf hcatalog hfunction harity ih
  | emptyCall _ _ hfunction harity | constant _ _ hfunction harity =>
    exact performable_callOf hcatalog hfunction (by rw [harity]; rfl) (by simp)
  | declared =>
    apply Performable.call (by simp [Table.keys, dataTypeField]) rfl (by decide)
    · simp [Table.keys, dataTypeField]
    · simp [Table.keys, dataTypeField]
    · simp only [List.forall_mem_cons, List.not_mem_nil, false_imp_iff, implies_true, and_true]
      exact ⟨.primitive rfl, .primitive rfl, .primitive rfl⟩
  | first _ ih =>
    intro f hf
    rw [List.mem_singleton.mp hf]
    exact ih
  | further _ _ _ ihs ih =>
    intro f hf
    rcases List.mem_append.mp hf with hf | hf
    · exact ihs f hf
    · rw [List.mem_singleton.mp hf]
      exact ih
  | integer | float | string | trueWord | falseWord => exact .primitive rfl

/-- What a line is read as can be rendered, also if it declares a trigger. -/
theorem DerivesLine.renderable {f : Fragment} {ts : List Terminal} (h : DerivesLine scope f ts) :
  f.Renderable
  := by
  cases h with
  | trigger => exact .trigger _ (by simp [Table.keys]) rfl rfl
  | expression h => exact (h.performable hcatalog).renderable

end Grammar

end TriggerLang
