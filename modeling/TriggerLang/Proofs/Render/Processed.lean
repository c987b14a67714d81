import TriggerLang.Proofs.Document.Processed
import TriggerLang.Proofs.Render.Published
import TriggerLang.Proofs.Render.RoundTrip

/-!
# Rendering what has been processed

Before a fragment becomes part of a document its reserved fields are stripped and the script's
own entity is bound.  Neither changes the text that stands for the fragment: reserved fields
are not rendered, and the fields that are set when the entity is bound belong to a function
that is rendered without arguments.
-/

namespace TriggerLang

/-- The catalog leaves alone what documents are written with as well: the script's own entity
takes no arguments, and no argument is stored under the name of a field that documents or the
program itself use. -/
structure Catalog.Publishable (catalog : Catalog) : Prop extends catalog.Writable where
  noEntityParameter : ∀ signature, catalog.get? thisEntityFunction = some signature →
    signature.parameters = []
  noDocumentField : ∀ entry ∈ catalog.functions, ∀ p ∈ entry.2.parameters,
    p.field ∉ ["type", "comment", "then", "else"]
  noReservedField : ∀ entry ∈ catalog.functions, ∀ p ∈ entry.2.parameters,
    Fragment.isReserved p.field = false

namespace Fragment

/-- Processing a fragment leaves its fields publishable. -/
theorem Unadorned.strip {fields : Fields} (h : Unadorned fields) (table : SideTable)
    (name : String) :
  ∃ processed, (strip [.bind table] name (.mapping fields)).value = .mapping processed
    ∧ Unadorned processed
  := by
  refine ⟨_, strip_eq_processedFields table name fields,
    ⟨nodup_keys_processedFields table name h.nodup, ?_⟩, ?_⟩
  · intro key hkey
    rcases of_mem_keys_processedFields table name hkey with hkey | rfl | rfl
    · exact h.unpublished key hkey
    · decide
    · decide
  · intro hkey
    rcases of_mem_keys_processedFields table name hkey with hkey | heq | heq
    · exact h.uncommented hkey
    · simp at heq
    · simp at heq

/-- The function of a call is not changed. -/
theorem exists_strip_call {fields : Fields} {function : String} (table : SideTable)
    (h : fields.lookup "function" = some (.string function)) (name : String) :
  ∃ processed, (strip [.bind table] name (.mapping fields)).value = .mapping processed
    ∧ processed.lookup "function" = some (.string function)
  := by
  refine ⟨_, strip_eq_processedFields table name fields, ?_⟩
  rw [lookup_processedFields table name (by decide) (by decide), h]
  rfl

/-- A mapping of strings that calls no function is left alone. -/
theorem strip_strings (entries : List (String × String)) (table : SideTable)
    (h : ∀ entry ∈ entries, isReserved entry.1 = false ∧ entry.1 ≠ "function") (name : String) :
  (strip [.bind table] name (.mapping (entries.map fun e => (e.1, .string e.2)))).value
    = .mapping (entries.map fun e => (e.1, .string e.2))
  := by
  rw [strip_mapping]
  · congr 1
    induction entries with
    | nil => rfl
    | cons entry rest ih =>
      have hrest := ih fun e he => h e (List.mem_cons_of_mem _ he)
      simp [stripFields, strip, (h entry List.mem_cons_self).1, hrest]
  · have habsent : (entries.map fun e => (e.1, Fragment.string e.2)).lookup "function" = none := by
      rw [List.lookup_eq_none_iff]
      intro e he
      obtain ⟨entry, hentry, rfl⟩ := List.mem_map.mp he
      exact bne_iff_ne.mpr (h entry hentry).2.symm
    simp [functionName?, get?, habsent]

theorem strip_primitive {f : Fragment} (h : f.isPrimitive = true) (effects : List FieldEffect)
    (name : String) :
  (strip effects name f).value = f
  := by
  cases f <;> first | rfl | cases h

/-- The operands of an operator are stripped one by one, under names of places. -/
theorem exists_strip_operands {entries : List (String × String)} (table : SideTable)
    (h : ∀ entry ∈ entries, isReserved entry.1 = false ∧ entry.1 ≠ "function")
    (left right : Fragment) (name : String) :
  ∃ l r, (strip [.bind table] name
      (.list [.mapping (entries.map fun e => (e.1, .string e.2)), left, right])).value
    = .list [.mapping (entries.map fun e => (e.1, .string e.2)),
      (strip [.bind table] l left).value, (strip [.bind table] r right).value]
  := by
  refine ⟨String.ofList (Nat.toDigits 10 1), String.ofList (Nat.toDigits 10 2), ?_⟩
  have hheader := strip_strings entries table h
  generalize mapping (entries.map fun e => (e.1, .string e.2)) = header at hheader
  simp only [strip, stripItems, hheader]

/-- The operands of a condition are stripped, its operator is left alone. -/
theorem exists_strip_condition (op : Operator) (operandType : String) (table : SideTable)
    (left right : Fragment) (name : String) :
  ∃ l r, (strip [.bind table] name (.list [op.header operandType, left, right])).value
    = .list [op.header operandType, (strip [.bind table] l left).value,
      (strip [.bind table] r right).value]
  := @exists_strip_operands [("operator", op.name), ("operandType", operandType)] table
    (by simp [isReserved]) left right name

/-- The operands of a calculation are stripped, its operator is left alone. -/
theorem exists_strip_items (op : Operator) (table : SideTable) (left right : Fragment)
    (name : String) :
  ∃ l r, (strip [.bind table] name
      (.list [.mapping [("operator", .string op.name)], left, right])).value
    = .list [.mapping [("operator", .string op.name)], (strip [.bind table] l left).value,
      (strip [.bind table] r right).value]
  := @exists_strip_operands [("operator", op.name)] table (by simp [isReserved]) left right name

end Fragment

namespace Grammar

variable {scope : Parse.Scope} {table : SideTable} {renderer : Renderer}

/-- Wherever the fragment stands, it is rendered after processing as before. -/
def RendersAlike (renderer : Renderer) (table : SideTable) (f : Fragment) : Prop :=
  ∀ label name, renderer.rendered (Fragment.strip [.bind table] name (f.labelled label)).value
    = renderer.rendered (f.labelled label)

/-- Every fragment of the phrase is rendered after processing as before. -/
def Phrase.RendersAlike (renderer : Renderer) (table : SideTable) : Phrase → Prop
  | .value _ f => Grammar.RendersAlike renderer table f
  | .arguments fs => ∀ f ∈ fs, Grammar.RendersAlike renderer table f

namespace RendersAlike

/-- Only the script's own entity is labelled. -/
theorem of_ne {f : Fragment} (hne : f.functionName? ≠ some thisEntityFunction)
    (h : ∀ name, renderer.rendered (Fragment.strip [.bind table] name f).value
      = renderer.rendered f) :
  RendersAlike renderer table f
  := by
  intro label name
  rw [Fragment.labelled_of_ne hne]
  exact h name

theorem primitive {f : Fragment} (h : f.isPrimitive = true) :
  RendersAlike renderer table f
  := by
  apply of_ne (by simp [functionName?_of_isPrimitive h])
  intro name
  rw [Fragment.strip_primitive h]

/-- Without a label the fragment is rendered after processing as before. -/
theorem strip {f : Fragment} (h : RendersAlike renderer table f) (name : String) :
  renderer.rendered (Fragment.strip [.bind table] name f).value = renderer.rendered f
  := h none name

theorem condition {left right : Fragment} (op : Operator) (operandType : String)
    (hleft : RendersAlike renderer table left) (hright : RendersAlike renderer table right)
    (name : String) :
  renderer.rendered
      (Fragment.strip [.bind table] name (.list [op.header operandType, left, right])).value
    = renderer.rendered (.list [op.header operandType, left, right])
  := by
  obtain ⟨l, r, hstrip⟩ := Fragment.exists_strip_condition op operandType table left right name
  rw [hstrip, Operator.header, Renderer.rendered_condition, Renderer.rendered_condition,
    hleft.strip, hright.strip]

theorem calculation {left right : Fragment} (op : Operator)
    (hleft : RendersAlike renderer table left) (hright : RendersAlike renderer table right)
    (name : String) :
  renderer.rendered (Fragment.strip [.bind table] name (op.calculation left right)).value
    = renderer.rendered (op.calculation left right)
  := by
  obtain ⟨l, r, hitems⟩ := Fragment.exists_strip_items op table left right "items"
  have hname : (Fragment.strip [.bind table] "function" (.string calculateFunction)).value
      = .string calculateFunction := rfl
  have hstrip : (Fragment.strip [.bind table] name (op.calculation left right)).value
      = op.calculation (Fragment.strip [.bind table] l left).value
        (Fragment.strip [.bind table] r right).value := by
    rw [Operator.calculation, Fragment.strip_mapping _ (by simp [Fragment.functionName?,
      Fragment.get?, calculateFunction, thisEntityFunction])]
    simp [Operator.calculation, Fragment.stripFields, Fragment.isReserved, hitems, hname]
  rw [hstrip, Renderer.rendered_calculation, Renderer.rendered_calculation, hleft.strip,
    hright.strip]

theorem apply {left right : Fragment} (catalog : Catalog) (op : Operator)
    (hleft : RendersAlike renderer table left) (hright : RendersAlike renderer table right) :
  RendersAlike renderer table (op.apply catalog left right)
  := by
  apply of_ne (functionName?_apply _ _ _ _)
  intro name
  obtain ⟨operandType, heq⟩ | heq := op.apply_eq_or catalog left right
  · rw [heq]
    exact condition op operandType hleft hright name
  · rw [heq]
    exact calculation op hleft hright name

theorem negate {f : Fragment} (h : RendersAlike renderer table f) :
  RendersAlike renderer table (negate f)
  := by
  cases f with
  | integer n => exact primitive rfl
  | float x => exact primitive rfl
  | _ => exact (primitive rfl).apply {} .multiply h

theorem declared {name dataType : String} :
  RendersAlike renderer table (variableOf name dataType)
  := by
  apply of_ne
  · simp [variableOf, Fragment.functionName?, Fragment.get?, variableFunction, thisEntityFunction]
  · intro place
    have hstrip : (Fragment.strip [.bind table] place (variableOf name dataType)).value
        = .mapping [("function", .string variableFunction), ("variableName", .string name)] := by
      rw [variableOf, Fragment.strip_mapping _ (by simp [Fragment.functionName?, Fragment.get?,
        variableFunction, thisEntityFunction])]
      simp [Fragment.stripFields, Fragment.strip, Fragment.isReserved, dataTypeField]
    rw [hstrip, Renderer.rendered_variable _ rfl, variableOf, Renderer.rendered_variable _ rfl]
    rfl

variable {signature : Signature} {fs : List Fragment}

/-- A call of a function with parameters is rendered with the arguments that have been
processed. -/
theorem call (hfunction : renderer.catalog.get? signature.key = some signature)
    (hcalculate : signature.key ≠ calculateFunction)
    (hvariable : signature.key ≠ variableFunction) (hentity : signature.key ≠ thisEntityFunction)
    (hfield : ∀ p ∈ signature.parameters, p.field ≠ "function")
    (hreserved : ∀ p ∈ signature.parameters, Fragment.isReserved p.field = false)
    (hne : signature.parameters ≠ []) (harity : fs.length = signature.parameters.length)
    (hfs : ∀ f ∈ fs, RendersAlike renderer table f) :
  RendersAlike renderer table (callOf signature fs)
  := by
  intro label name
  have hname := @lookup_function signature.key _ (function_notMem_entries hfield harity label)
  have hnot : (Fragment.mapping (callFields signature.key
      (argumentEntries signature.parameters fs ++ labelEntries signature.key label))).functionName?
        ≠ some thisEntityFunction := by
    simpa [Fragment.functionName?, Fragment.get?, hname] using hentity
  have hlabel : labelEntries signature.key label = [] := by
    cases label with
    | none => rfl
    | some dataType => rw [labelEntries, if_neg hentity]
  have hprocessed : ∀ key, Fragment.isReserved key = false →
      (Fragment.stripFields [.bind table] [] (callFields signature.key (argumentEntries
        signature.parameters fs ++ labelEntries signature.key label))).value.lookup key
        = ((callFields signature.key (argumentEntries signature.parameters fs ++
          labelEntries signature.key label)).lookup key).map
            fun value => (Fragment.strip [.bind table] key value).value :=
    fun key hkey => Fragment.lookup_stripFields hkey rfl _
  rw [labelled_callOf hfield harity, Fragment.strip_mapping _ hnot]
  apply renderer.rendered_call_congr _ hname hfunction hcalculate hvariable hne
  · intro p hp
    have hargument : (callFields signature.key (argumentEntries signature.parameters fs ++
        labelEntries signature.key label)).lookup p.field
        = ((signature.parameters.zip fs).reverse.find? (·.1.field == p.field)).map
            fun argument => argument.2.labelled (some argument.1.dataType) := by
      rw [hlabel, List.append_nil, lookup_callFields, lookup_reverse_argumentEntries]
      rw [List.lookup_cons, beq_eq_false_iff_ne.mpr (hfield p hp)]
      exact Option.or_none
    rw [Renderer.argumentText, Renderer.argumentText, hprocessed _ (hreserved p hp), hargument]
    cases hfind : (signature.parameters.zip fs).reverse.find? (·.1.field == p.field) with
    | none => rfl
    | some argument =>
      have hmem := List.of_mem_zip (List.mem_reverse.mp (List.mem_of_find?_eq_some hfind))
      simp only [Option.map_some, hfs _ hmem.2 _ _]
  · rw [hprocessed _ (by decide), hname]
    rfl

theorem constant (hfunction : renderer.catalog.get? signature.key = some signature)
    (hcalculate : signature.key ≠ calculateFunction)
    (hvariable : signature.key ≠ variableFunction) (hnil : signature.parameters = []) :
  RendersAlike renderer table (callOf signature [])
  := by
  intro label name
  have hfield : ∀ p ∈ signature.parameters, p.field ≠ "function" := by simp [hnil]
  have harity : ([] : List Fragment).length = signature.parameters.length := by simp [hnil]
  have hname := @lookup_function signature.key _ (function_notMem_entries hfield harity label)
  obtain ⟨processed, hstrip, hprocessed⟩ := Fragment.exists_strip_call table hname name
  rw [labelled_callOf hfield harity, hstrip,
    renderer.rendered_constant hname hfunction hcalculate hvariable hnil,
    renderer.rendered_constant hprocessed hfunction hcalculate hvariable hnil]

end RendersAlike

/-- What a line is read as is rendered after processing as before, at every step of its
derivation. -/
theorem Derives.rendersAlike (hcatalog : scope.catalog.Publishable)
    (hrenderer : renderer.catalog = scope.catalog) {phrase : Phrase} {ts : List Terminal}
    (h : Derives scope phrase ts) :
  phrase.RendersAlike renderer table
  := by
  have hconstant : ∀ {signature : Signature} {name : String},
      scope.catalog.get? name = some signature → signature.parameters = [] →
      RendersAlike renderer table (callOf signature []) := by
    intro signature name hfunction hnil
    have hkey := scope.catalog.key_of_get? hfunction
    subst hkey
    exact .constant (hrenderer ▸ hfunction) (hcatalog.ne_calculate hfunction)
      (hcatalog.ne_variable hfunction) hnil
  induction h with
  | loosen _ _ ih => exact ih
  | binary _ _ _ ihleft ihright => exact ihleft.apply _ _ ihright
  | negative _ _ ih => exact ih.negate
  | group _ _ _ ih => exact ih
  | @call signature fs ts name opening closing hname hword hfunction harity hopen hclose hargs ih =>
    have hne : signature.parameters ≠ [] := by
      intro hnil
      rw [hnil] at harity
      exact hargs.arguments_ne_nil (List.eq_nil_of_length_eq_zero harity)
    have hkey := scope.catalog.key_of_get? hfunction
    rw [← hkey] at hfunction
    have hmem := Table.mem_of_lookup hfunction
    have hentity : signature.key ≠ thisEntityFunction := by
      intro hentity
      exact hne (hcatalog.noEntityParameter signature (hentity ▸ hfunction))
    exact .call (hrenderer ▸ hfunction) (hcatalog.ne_calculate hfunction)
      (hcatalog.ne_variable hfunction) hentity (fun _ => hcatalog.field_ne_function hfunction)
      (hcatalog.noReservedField _ hmem) hne harity ih
  | emptyCall _ _ hfunction hnil => exact hconstant hfunction hnil
  | constant _ _ hfunction hnil => exact hconstant hfunction hnil
  | declared => exact .declared
  | first _ ih =>
    intro f hf
    rw [List.mem_singleton.mp hf]
    exact ih
  | further _ _ _ ihs ih =>
    intro f hf
    rcases List.mem_append.mp hf with hf | hf
    · exact ihs f hf
    · rw [List.mem_singleton.mp hf]
      exact ih
  | integer | float | string | trueWord | falseWord => exact .primitive rfl

/-! ### Fields of actions -/

/-- If the phrase is a mapping, its fields can be published, and none is a comment. -/
def Phrase.Unadorned : Phrase → Prop
  | .value _ f => ∀ fields, f = .mapping fields → Fragment.Unadorned fields
  | .arguments _ => True

theorem unadorned_calculation (op : Operator) (left right : Fragment) :
  ∀ fields, op.calculation left right = .mapping fields → Fragment.Unadorned fields
  := by
  rintro fields ⟨⟩
  exact ⟨⟨by simp [Table.keys], by simp [Table.keys]⟩, by simp [Table.keys]⟩

theorem unadorned_apply (catalog : Catalog) (op : Operator) (left right : Fragment) :
  ∀ fields, op.apply catalog left right = .mapping fields → Fragment.Unadorned fields
  := by
  obtain ⟨operandType, heq⟩ | heq := op.apply_eq_or catalog left right
  · rw [heq]
    rintro fields ⟨⟩
  · rw [heq]
    exact unadorned_calculation op left right

theorem unadorned_callOf {signature : Signature} {fs : List Fragment}
    (hfield : ∀ p ∈ signature.parameters, p.field ∉ ["type", "comment", "then", "else"]) :
  ∀ fields, callOf signature fs = .mapping fields → Fragment.Unadorned fields
  := by
  intro fields heq
  rw [callOf, fieldsOf_eq] at heq
  cases heq
  have hkeys : ∀ key ∈ Table.keys (callFields signature.key
      (argumentEntries signature.parameters fs)), key ∉ ["type", "comment", "then", "else"] := by
    intro key hkey
    obtain ⟨entry, hentry, rfl⟩ := List.mem_map.mp hkey
    rcases Table.mem_setAll hentry with hentry | hentry
    · obtain rfl := List.mem_singleton.mp hentry
      simp
    · obtain ⟨argument, hargument, rfl⟩ := List.mem_map.mp hentry
      exact hfield _ (List.of_mem_zip hargument).1
  constructor
  · refine ⟨nodup_keys_callFields _ _, ?_⟩
    intro key hkey hmem
    apply hkeys key hkey
    simp only [List.mem_cons] at hmem ⊢
    tauto
  · exact fun hkey => hkeys _ hkey (by simp)

/-- What a line is read as has no fields of published actions, of blocks, or of comments. -/
theorem Derives.unadorned (hcatalog : scope.catalog.Publishable) {phrase : Phrase}
    {ts : List Terminal} (h : Derives scope phrase ts) :
  phrase.Unadorned
  := by
  induction h with
  | loosen _ _ ih => exact ih
  | binary => exact unadorned_apply _ _ _ _
  | @negative f _ _ _ _ ih =>
    cases f with
    | integer => rintro fields ⟨⟩
    | float => rintro fields ⟨⟩
    | _ => exact unadorned_calculation _ _ _
  | group _ _ _ ih => exact ih
  | call _ _ hfunction =>
    exact unadorned_callOf (hcatalog.noDocumentField _ (Table.mem_of_lookup hfunction))
  | emptyCall _ _ hfunction =>
    exact unadorned_callOf (hcatalog.noDocumentField _ (Table.mem_of_lookup hfunction))
  | constant _ _ hfunction =>
    exact unadorned_callOf (hcatalog.noDocumentField _ (Table.mem_of_lookup hfunction))
  | declared =>
    rintro fields ⟨⟩
    exact ⟨⟨by simp [Table.keys, dataTypeField], by simp [Table.keys, dataTypeField]⟩,
      by simp [Table.keys, dataTypeField]⟩
  | first | further => trivial
  | integer | float | string | trueWord | falseWord => rintro fields ⟨⟩

end Grammar

end TriggerLang
