import TriggerLang.Proofs.Render.Printed
import TriggerLang.Proofs.Text.Line

/-!
# Printed calls

A call is printed with the arguments that its fields hold in the end.  Two parameters may
share a field, and the script's own entity is labelled as an argument, so what is printed
need not be the arguments that were read.  Reading it again makes the same fields all the
same: they are set in the same order, and the last argument of a field is the one that it
holds.
-/

namespace TriggerLang

namespace Fragment

/-- The pieces with one more at the end. -/
theorem commaSeparated_append_singleton {pieces : List (List Char)} (h : pieces ≠ [])
    (piece : List Char) :
  commaSeparated (pieces ++ [piece]) = commaSeparated pieces ++ ',' :: ' ' :: piece
  := by
  rw [commaSeparated, Text.intercalate_append_singleton h, List.append_assoc]
  rfl

/-- The fragment as it stands in a place: the script's own entity is labelled with the type
that the place asks for, if it asks for one. -/
def labelled (label : Option String) (fragment : Fragment) : Fragment :=
  match label with
  | some dataType =>
    if fragment.functionName? = some thisEntityFunction then
      fragment.setField dataTypeField (.string dataType)
    else
      fragment
  | none => fragment

theorem labelled_of_ne {fragment : Fragment}
    (h : fragment.functionName? ≠ some thisEntityFunction) (label : Option String) :
  fragment.labelled label = fragment
  := by
  cases label with
  | none => rfl
  | some dataType => rw [labelled, if_neg h]

end Fragment

namespace Renderer

/-- The text of the argument for a parameter among the fields of a call. -/
def argumentText (renderer : Renderer) (fields : Fragment.Fields) (parameter : Parameter) :
    Except RenderError (List Char) :=
  match fields.lookup parameter.field with
  | some value => (renderer.rendered value).map Rendered.text
  | none => .ok []

theorem mapM_congr {parameters : List Parameter}
    {render other : Parameter → Except RenderError (List Char)}
    (h : ∀ p ∈ parameters, render p = other p) :
  parameters.mapM render = parameters.mapM other
  := by
  induction parameters with
  | nil => rfl
  | cons p rest ih =>
    rw [List.mapM_cons, List.mapM_cons, h p List.mem_cons_self,
      ih fun p hp => h p (List.mem_cons_of_mem _ hp)]

theorem renderedCall_parameters (renderer : Renderer) {name : String} {signature : Signature}
    (hfunction : renderer.catalog.get? name = some signature)
    (hcalculate : name ≠ calculateFunction) (hvariable : name ≠ variableFunction)
    (hne : signature.parameters ≠ []) (fields : Fragment.Fields) :
  renderer.renderedCall name fields
    = (signature.parameters.mapM (renderer.argumentText fields)).map
        fun texts => .atom (callText name texts)
  := by
  rw [renderedCall, if_neg hcalculate, if_neg hvariable]
  simp only [hfunction]
  rw [if_neg (by simpa using hne)]
  have hcall : ∀ render : Parameter → Except RenderError (List Char),
      (∀ parameter, render parameter = renderer.argumentText fields parameter) →
      (do
        let arguments ← signature.parameters.mapM render
        pure (Rendered.atom (callText name arguments)))
        = (signature.parameters.mapM (renderer.argumentText fields)).map
            fun texts => .atom (callText name texts) := by
    intro render hrender
    rw [funext hrender]
    rfl
  apply hcall
  intro parameter
  rw [argumentText]
  split <;> rename_i hlookup <;> rw [hlookup]

/-- A call of a function with parameters is rendered with its arguments in brackets. -/
theorem rendered_call (renderer : Renderer) {fields : Fragment.Fields} {name : String}
    {signature : Signature} (hname : fields.lookup "function" = some (.string name))
    (hfunction : renderer.catalog.get? name = some signature)
    (hcalculate : name ≠ calculateFunction) (hvariable : name ≠ variableFunction)
    (hne : signature.parameters ≠ []) :
  renderer.rendered (.mapping fields)
    = (signature.parameters.mapM (renderer.argumentText fields)).map
        fun texts => .atom (callText name texts)
  := by
  rw [rendered]
  simp only [hname]
  exact renderer.renderedCall_parameters hfunction hcalculate hvariable hne fields

/-- Calls of a function are rendered alike if their arguments are. -/
theorem rendered_call_congr (renderer : Renderer) {fields others : Fragment.Fields}
    {name : String} {signature : Signature}
    (hname : fields.lookup "function" = some (.string name))
    (hothers : others.lookup "function" = some (.string name))
    (hfunction : renderer.catalog.get? name = some signature)
    (hcalculate : name ≠ calculateFunction) (hvariable : name ≠ variableFunction)
    (hne : signature.parameters ≠ [])
    (h : ∀ p ∈ signature.parameters,
      renderer.argumentText fields p = renderer.argumentText others p) :
  renderer.rendered (.mapping fields) = renderer.rendered (.mapping others)
  := by
  rw [renderer.rendered_call hname hfunction hcalculate hvariable hne,
    renderer.rendered_call hothers hfunction hcalculate hvariable hne, mapM_congr h]

theorem renderedCall_constant (renderer : Renderer) {name : String} {signature : Signature}
    (hfunction : renderer.catalog.get? name = some signature)
    (hcalculate : name ≠ calculateFunction) (hvariable : name ≠ variableFunction)
    (hnil : signature.parameters = []) (fields : Fragment.Fields) :
  renderer.renderedCall name fields = .ok (.atom name.toList)
  := by
  rw [renderedCall, if_neg hcalculate, if_neg hvariable]
  simp only [hfunction]
  rw [if_pos (by simpa using hnil)]

/-- A call of a function without parameters is rendered as its name. -/
theorem rendered_constant (renderer : Renderer) {fields : Fragment.Fields} {name : String}
    {signature : Signature} (hname : fields.lookup "function" = some (.string name))
    (hfunction : renderer.catalog.get? name = some signature)
    (hcalculate : name ≠ calculateFunction) (hvariable : name ≠ variableFunction)
    (hnil : signature.parameters = []) :
  renderer.rendered (.mapping fields) = .ok (.atom name.toList)
  := by
  rw [rendered]
  simp only [hname]
  exact renderer.renderedCall_constant hfunction hcalculate hvariable hnil fields

/-- A variable is rendered as its name. -/
theorem rendered_variable (renderer : Renderer) {fields : Fragment.Fields}
    (hname : fields.lookup "function" = some (.string variableFunction)) :
  renderer.rendered (.mapping fields)
    = .ok (.atom (Fragment.plainField "variableName" "" fields).toList)
  := by
  rw [rendered]
  simp only [hname]
  rw [renderedCall, if_neg (by decide), if_pos rfl]

end Renderer

namespace Grammar

open Fragment (labelled)

/-! ### Fields of calls -/

/-- The fields that arguments set. -/
def argumentEntries (parameters : List Parameter) (arguments : List Fragment) :
    Fragment.Fields :=
  (parameters.zip arguments).map fun argument =>
    (argument.1.field, argument.2.labelled (some argument.1.dataType))

/-- The field that a label sets in a call of `name`. -/
def labelEntries (name : String) : Option String → Fragment.Fields
  | some dataType =>
    if name = thisEntityFunction then [(dataTypeField, .string dataType)] else []
  | none => []

/-- The fields of a call of `name` after setting entries. -/
def callFields (name : String) (entries : Fragment.Fields) : Fragment.Fields :=
  Table.setAll [("function", .string name)] entries

theorem fieldsOf_eq (name : String) (parameters : List Parameter) (arguments : List Fragment) :
  fieldsOf name parameters arguments = callFields name (argumentEntries parameters arguments)
  := by
  rw [fieldsOf, callFields, Table.setAll, argumentEntries, List.foldl_map]
  rfl

theorem lookup_callFields (name key : String) (entries : Fragment.Fields) :
  (callFields name entries).lookup key
    = (entries.reverse.lookup key).or
        (([("function", .string name)] : Fragment.Fields).lookup key)
  := Table.lookup_setAll key _ entries

/-- The function of a call is not overwritten by its arguments. -/
theorem lookup_function {name : String} {entries : Fragment.Fields}
    (h : "function" ∉ Table.keys entries) :
  (callFields name entries).lookup "function" = some (.string name)
  := by
  have habsent : entries.reverse.lookup "function" = none := by
    apply Table.lookup_eq_none_of_notMem
    rwa [Table.keys, List.map_reverse, List.mem_reverse]
  rw [lookup_callFields, habsent]
  rfl

theorem keys_argumentEntries {parameters : List Parameter} {arguments : List Fragment}
    (h : arguments.length = parameters.length) :
  Table.keys (argumentEntries parameters arguments) = parameters.map Parameter.field
  := by
  have hparameters : (parameters.zip arguments).map Prod.fst = parameters :=
    List.map_fst_zip (Nat.le_of_eq h.symm)
  rw [Table.keys, argumentEntries, List.map_map]
  conv => rhs; rw [← hparameters, List.map_map]
  rfl

variable {signature : Signature} {arguments : List Fragment}

theorem function_notMem_entries (hfield : ∀ p ∈ signature.parameters, p.field ≠ "function")
    (harity : arguments.length = signature.parameters.length) (label : Option String) :
  "function" ∉ Table.keys (argumentEntries signature.parameters arguments ++
    labelEntries signature.key label)
  := by
  rw [Table.keys, List.map_append, List.mem_append, not_or]
  constructor
  · have hkeys := keys_argumentEntries harity
    rw [Table.keys] at hkeys
    rw [hkeys, List.mem_map]
    rintro ⟨p, hp, hfunction⟩
    exact hfield p hp hfunction
  · cases label with
    | none => simp [labelEntries]
    | some dataType =>
      rw [labelEntries]
      split <;> simp [dataTypeField]

/-- A labelled call has the fields of its arguments and of its label. -/
theorem labelled_callOf (hfield : ∀ p ∈ signature.parameters, p.field ≠ "function")
    (harity : arguments.length = signature.parameters.length) (label : Option String) :
  (callOf signature arguments).labelled label
    = .mapping (callFields signature.key
        (argumentEntries signature.parameters arguments ++ labelEntries signature.key label))
  := by
  have hfunction := @lookup_function signature.key _ (function_notMem_entries hfield harity none)
  rw [labelEntries, List.append_nil] at hfunction
  rw [callOf, fieldsOf_eq]
  cases label with
  | none => rw [labelEntries, List.append_nil, labelled]
  | some dataType =>
    rw [labelled, Fragment.functionName?, Fragment.get?, hfunction, labelEntries]
    simp only [Option.some_inj]
    split
    · rw [Fragment.setField, callFields, callFields, Table.setAll, Table.setAll,
        List.foldl_append]
      rfl
    · rw [List.append_nil]

/-- The last argument for a field is the one that the field holds. -/
theorem lookup_reverse_argumentEntries (parameters : List Parameter)
    (arguments : List Fragment) (key : String) :
  (argumentEntries parameters arguments).reverse.lookup key
    = ((parameters.zip arguments).reverse.find? (·.1.field == key)).map
        fun argument => argument.2.labelled (some argument.1.dataType)
  := by
  rw [argumentEntries, ← List.map_reverse]
  exact Table.lookup_map _ _ _ _

/-- Calls of a function have the same fields, in the same order. -/
theorem keys_callFields (name : String) {entries others : Fragment.Fields}
    (h : Table.keys entries = Table.keys others) :
  Table.keys (callFields name entries) = Table.keys (callFields name others)
  := Table.keys_setAll rfl h

theorem nodup_keys_callFields (name : String) (entries : Fragment.Fields) :
  (Table.keys (callFields name entries)).Nodup
  := Table.nodup_keys_setAll (by simp [Table.keys]) _

/-! ### Arguments -/

variable {v : Vocabulary} {scope : Parse.Scope}

/-- Arguments that are printed one by one are printed with commas between them. -/
theorem exists_arguments {parameters : List Parameter} (hne : parameters ≠ [])
    (render : Parameter → Except RenderError (List Char)) (argument : Parameter → Fragment)
    (h : ∀ p ∈ parameters, ∃ r, render p = .ok r.text ∧ Written v scope r (argument p)) :
  ∃ texts ts, parameters.mapM render = .ok texts ∧ texts ≠ []
    ∧ (∀ c ∈ Fragment.commaSeparated texts, Text.isLineBreak c = false)
    ∧ Means v.literals (Fragment.commaSeparated texts) ts
    ∧ Derives scope (.arguments (parameters.map argument)) ts
  := by
  induction parameters using List.reverseRecOn with
  | nil => exact absurd rfl hne
  | append_singleton rest last ih =>
    obtain ⟨r, hrender, hwritten⟩ := h last (by simp)
    obtain ⟨us, level, hmeans, hderives, -⟩ := hwritten.derives
    have hlast : Derives scope (.value .expression (argument last)) us :=
      .loosen (by cases level <;> decide) hderives
    by_cases hrest : rest = []
    · subst hrest
      refine ⟨[r.text], us, ?_, by simp, ?_⟩
      · simp [List.mapM_cons, hrender]
      · simp only [Fragment.commaSeparated, List.intercalate_singleton]
        exact ⟨hwritten.neat.unbroken, hmeans, .first hlast⟩
    · obtain ⟨texts, ts, hmap, htexts, hunbroken, hbefore, hfirst⟩ :=
        ih hrest fun p hp => h p (List.mem_append_left _ hp)
      refine ⟨texts ++ [r.text], ts ++ .ofSymbol .comma :: us, ?_, by simp, ?_⟩
      · simp [List.mapM_append, List.mapM_cons, hmap, hrender]
        rfl
      · rw [Fragment.commaSeparated_append_singleton htexts, List.map_append]
        refine ⟨?_, hbefore.comma hmeans, .further rfl hfirst hlast⟩
        intro c hc
        simp only [List.mem_append, List.mem_cons] at hc
        rcases hc with hc | rfl | rfl | hc
        · exact hunbroken c hc
        · rfl
        · rfl
        · exact hwritten.neat.unbroken c hc

/-! ### Round trips -/

/-- Wherever the fragment stands, it is printed as a fragment that is the same in that
place. -/
def RoundTrips (v : Vocabulary) (scope : Parse.Scope) (f : Fragment) : Prop :=
  ∀ label, (f.labelled label).FiniteFloats →
    ∃ g, Prints v scope (f.labelled label) g ∧ g.labelled label = f.labelled label

/-- Fragments other than the script's own entity are the same in every place. -/
theorem RoundTrips.of_prints {f : Fragment} (hne : f.functionName? ≠ some thisEntityFunction)
    (h : f.FiniteFloats → Prints v scope f f) :
  RoundTrips v scope f
  := by
  intro label hfinite
  have hlabelled := Fragment.labelled_of_ne hne label
  rw [hlabelled] at hfinite
  exact ⟨f, hlabelled.symm ▸ h hfinite, rfl⟩

variable {fs : List Fragment}

/-- Every argument is for its parameter. -/
theorem find?_parameters (harity : fs.length = signature.parameters.length) (key : String) :
  signature.parameters.reverse.find? (·.field == key)
    = ((signature.parameters.zip fs).reverse.find? (·.1.field == key)).map Prod.fst
  := by
  have hparameters : (signature.parameters.zip fs).reverse.map Prod.fst
      = signature.parameters.reverse := by
    rw [List.map_reverse, List.map_fst_zip (Nat.le_of_eq harity.symm)]
  rw [← hparameters, List.find?_map]
  rfl

/-- What a field of a call holds is printed as a fragment that makes the field hold the same
again, as the last argument for it. -/
theorem exists_reread (harity : fs.length = signature.parameters.length)
    (hfs : ∀ f ∈ fs, RoundTrips v scope f) {label : Option String} {value : Fragment}
    (hfinite : value.FiniteFloats) {key : String}
    (hvalue : (argumentEntries signature.parameters fs ++
      labelEntries signature.key label).reverse.lookup key = some value) :
  ∃ g, Prints v scope value g
    ∧ ((labelEntries signature.key label).reverse.lookup key = none →
      ∀ q, signature.parameters.reverse.find? (·.field == key) = some q →
        (argumentEntries signature.parameters fs).reverse.lookup key
          = some (g.labelled (some q.dataType)))
  := by
  rw [List.reverse_append, List.lookup_append] at hvalue
  cases hlabel : (labelEntries signature.key label).reverse.lookup key with
  | some written =>
    -- the label has overwritten the argument
    rw [hlabel, Option.some_or, Option.some_inj] at hvalue
    subst hvalue
    obtain ⟨dataType, rfl⟩ : ∃ s, written = .string s := by
      have hwritten := Table.mem_of_lookup hlabel
      cases label with
      | none => simp [labelEntries] at hwritten
      | some dataType =>
        rw [labelEntries] at hwritten
        split at hwritten <;> simp at hwritten
        exact ⟨dataType, hwritten.2⟩
    exact ⟨.string dataType, .string dataType, by simp⟩
  | none =>
    rw [hlabel, Option.none_or, lookup_reverse_argumentEntries] at hvalue
    obtain ⟨⟨p, f⟩, hfind, rfl⟩ := Option.map_eq_some_iff.mp hvalue
    have hf : f ∈ fs :=
      (List.of_mem_zip (List.mem_reverse.mp (List.mem_of_find?_eq_some hfind))).2
    obtain ⟨g, hprints, hsame⟩ := hfs f hf _ hfinite
    refine ⟨g, hprints, fun _ q hq => ?_⟩
    rw [find?_parameters harity, hfind] at hq
    cases hq
    rw [lookup_reverse_argumentEntries, hfind, hsame]
    rfl

/-- The same fields are set if the last argument for every field is the same. -/
theorem callFields_congr (harity : fs.length = signature.parameters.length)
    (label : Option String) (reread : String → Fragment)
    (h : ∀ key, (labelEntries signature.key label).reverse.lookup key = none →
      ∀ q, signature.parameters.reverse.find? (·.field == key) = some q →
        (argumentEntries signature.parameters fs).reverse.lookup key
          = some ((reread key).labelled (some q.dataType))) :
  callFields signature.key (argumentEntries signature.parameters
      (signature.parameters.map fun p => reread p.field) ++ labelEntries signature.key label)
    = callFields signature.key
      (argumentEntries signature.parameters fs ++ labelEntries signature.key label)
  := by
  apply Table.ext
  · apply keys_callFields
    have hkeys := keys_argumentEntries harity
    have hothers := @keys_argumentEntries signature.parameters
      (signature.parameters.map fun p => reread p.field) (by simp)
    rw [Table.keys] at hkeys hothers
    rw [Table.keys, Table.keys, List.map_append, List.map_append, hkeys, hothers]
  · exact nodup_keys_callFields _ _
  · intro key
    rw [lookup_callFields, lookup_callFields, List.reverse_append, List.reverse_append,
      List.lookup_append, List.lookup_append]
    cases hlabel : (labelEntries signature.key label).reverse.lookup key with
    | some written => rfl
    | none =>
      have hzip : argumentEntries signature.parameters
          (signature.parameters.map fun p => reread p.field)
          = signature.parameters.map fun p => (p.field, (reread p.field).labelled p.dataType) := by
        rw [argumentEntries, ← List.map_prod_left_eq_zip, List.map_map]
        rfl
      have hreread : (argumentEntries signature.parameters
          (signature.parameters.map fun p => reread p.field)).reverse.lookup key
          = (signature.parameters.reverse.find? (·.field == key)).map
              fun p => (reread p.field).labelled p.dataType := by
        rw [hzip, ← List.map_reverse]
        exact Table.lookup_map _ _ _ _
      rw [hreread]
      cases hfind : signature.parameters.reverse.find? (·.field == key) with
      | none =>
        rw [find?_parameters harity, Option.map_eq_none_iff] at hfind
        rw [lookup_reverse_argumentEntries, hfind]
        rfl
      | some q =>
        have hfield : q.field = key := by simpa using List.find?_some hfind
        rw [h key hlabel q hfind, ← hfield]
        rfl

/-- Every parameter of a call has a value. -/
theorem exists_lookup_reverse (harity : fs.length = signature.parameters.length)
    (label : Option String) {p : Parameter} (hp : p ∈ signature.parameters) :
  ∃ value, (argumentEntries signature.parameters fs ++
    labelEntries signature.key label).reverse.lookup p.field = some value
  := by
  have hkeys := keys_argumentEntries harity
  have hfield : p.field ∈ Table.keys (argumentEntries signature.parameters fs) :=
    hkeys ▸ List.mem_map_of_mem hp
  obtain ⟨entry, hentry, hkey⟩ := List.mem_map.mp hfield
  rw [← Option.isSome_iff_exists, List.lookup_isSome_iff]
  exact ⟨entry, by simp [hentry], by simp [hkey]⟩

/-- The function can be called by its name, and the call is rendered as one. -/
structure Callable (v : Vocabulary) (scope : Parse.Scope) (signature : Signature) : Prop where
  function : scope.catalog.get? signature.key = some signature
  isName : Text.IsName signature.key.toList
  literal : v.literals.lookup signature.key.toList = none
  notKeyword : ¬ isKeyword signature.key
  ne_calculate : signature.key ≠ calculateFunction
  ne_variable : signature.key ≠ variableFunction
  field : ∀ p ∈ signature.parameters, p.field ≠ "function"

theorem Callable.means (h : Callable v scope signature) :
  Means v.literals signature.key.toList [⟨.identifier, signature.key.toList, false⟩]
  := .word h.isName h.literal

/-- A call of a function with parameters is printed as a call that is the same in its place. -/
theorem Callable.roundTrips (h : Callable v scope signature) (hne : signature.parameters ≠ [])
    (harity : fs.length = signature.parameters.length)
    (hfs : ∀ f ∈ fs, RoundTrips v scope f) :
  RoundTrips v scope (callOf signature fs)
  := by
  intro label hfinite
  have hentries := function_notMem_entries h.field harity label
  rw [labelled_callOf h.field harity] at hfinite ⊢
  -- one fragment for every field, whichever parameters share it
  have hreread : ∀ key, ∃ g, (∃ p ∈ signature.parameters, p.field = key) →
      (∃ value, (callFields signature.key (argumentEntries signature.parameters fs ++
        labelEntries signature.key label)).lookup key = some value ∧ Prints v scope value g)
        ∧ ((labelEntries signature.key label).reverse.lookup key = none →
          ∀ q, signature.parameters.reverse.find? (·.field == key) = some q →
            (argumentEntries signature.parameters fs).reverse.lookup key
              = some (g.labelled (some q.dataType))) := by
    intro key
    by_cases hkey : ∃ p ∈ signature.parameters, p.field = key
    · obtain ⟨p, hp, rfl⟩ := hkey
      obtain ⟨value, hvalue⟩ := exists_lookup_reverse harity label hp
      have hlookup : (callFields signature.key (argumentEntries signature.parameters fs ++
          labelEntries signature.key label)).lookup p.field = some value := by
        rw [lookup_callFields, hvalue, Option.some_or]
      have hfinite := Fragment.finiteFloatsOfFields_iff.mp hfinite _ (Table.mem_of_lookup hlookup)
      obtain ⟨g, hprints, hlast⟩ := exists_reread harity hfs hfinite hvalue
      exact ⟨g, fun _ => ⟨⟨value, hlookup, hprints⟩, hlast⟩⟩
    · exact ⟨.null, fun h => absurd h hkey⟩
  choose reread hreread using hreread
  have hsame := callFields_congr harity label reread fun key hlabel q hq =>
    (hreread key ⟨q, List.mem_reverse.mp (List.mem_of_find?_eq_some hq),
      by simpa using List.find?_some hq⟩).2 hlabel q hq
  refine ⟨callOf signature (signature.parameters.map fun p => reread p.field), ?_, ?_⟩
  · obtain ⟨texts, ts, hmap, -, hunbroken, hmeans, hderives⟩ :=
      @exists_arguments v scope signature.parameters hne
        ((v.renderer scope.catalog).argumentText (callFields signature.key
          (argumentEntries signature.parameters fs ++ labelEntries signature.key label)))
        (fun p => reread p.field) (by
        intro p hp
        obtain ⟨⟨value, hlookup, r, hr, hwritten⟩, -⟩ := hreread p.field ⟨p, hp, rfl⟩
        refine ⟨r, ?_, hwritten⟩
        rw [Renderer.argumentText, hlookup]
        simp only [hr]
        rfl)
    have hrendered := (v.renderer scope.catalog).rendered_call (lookup_function hentries)
      h.function h.ne_calculate h.ne_variable hne
    rw [hmap] at hrendered
    refine ⟨_, hrendered, ?_⟩
    have hcall : Means v.literals (Renderer.callText signature.key texts) _ :=
      h.means.call hmeans
    exact .atom (h.isName.neat.call hunbroken) hcall
      (.call rfl (by simpa using h.notKeyword) (by simpa using h.function)
        (by simp) rfl rfl hderives) (by decide)
  · rw [labelled_callOf h.field (by simp), hsame]

/-- A call of a function without parameters is printed as its bare name. -/
theorem Callable.roundTrips_constant (h : Callable v scope signature) (hnil : signature.parameters = []) :
  RoundTrips v scope (callOf signature [])
  := by
  intro label _
  have harity : ([] : List Fragment).length = signature.parameters.length := by simp [hnil]
  refine ⟨callOf signature [], ?_, rfl⟩
  rw [labelled_callOf h.field harity]
  have hrendered := (v.renderer scope.catalog).rendered_constant
    (lookup_function (function_notMem_entries h.field harity label)) h.function h.ne_calculate
    h.ne_variable hnil
  refine ⟨_, hrendered, ?_⟩
  exact .atom h.isName.neat h.means (.constant rfl (by simpa using h.notKeyword)
    (by simpa using h.function) hnil) (by decide)

/-- A declared variable is printed as its name. -/
theorem RoundTrips.declared {name dataType : String} (hfunction : scope.catalog.get? name = none)
    (htype : scope.declarations.variableType? name = some dataType)
    (hname : Text.IsName name.toList) (hliteral : v.literals.lookup name.toList = none)
    (hword : ¬ isKeyword name) :
  RoundTrips v scope (variableOf name dataType)
  := by
  apply RoundTrips.of_prints
  · simp [variableOf, Fragment.functionName?, Fragment.get?, variableFunction,
      thisEntityFunction]
  · intro _
    have hrendered : (v.renderer scope.catalog).rendered (variableOf name dataType)
        = .ok (.atom name.toList) := by
      rw [variableOf, Renderer.rendered_variable _ rfl]
      simp [Fragment.plainField, Fragment.plain, List.lookup_cons]
    have hderives := @Derives.declared scope ⟨.identifier, name.toList, false⟩ dataType rfl
      (by simpa using hword) (by simpa using hfunction) (by simpa using htype)
    rw [Terminal.word_mk] at hderives
    exact ⟨_, hrendered, .atom hname.neat (.word hname hliteral) hderives (by decide)⟩

end Grammar

end TriggerLang
