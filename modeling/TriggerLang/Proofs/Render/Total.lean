import TriggerLang.Proofs.Render.Processed

/-!
# Rendering that cannot fail

What a line is read as can be rendered, with whatever catalog: an operator has two operands, a
call names a function, and all that it holds can be rendered.  This does not change while the
fragment makes its way into a document: reserved fields are stripped, the script's own entity is
bound, a comment is attached, and the field of the function is renamed, also in the calls that
stand in a field which a block uses for one of its branches.
-/

namespace TriggerLang

namespace Fragment

/-- The fragment can be rendered. -/
inductive Renderable : Fragment → Prop
  | primitive {f : Fragment} (h : f.isPrimitive = true) : Renderable f
  | condition (op : Operator) (operandType : String) {left right : Fragment} :
      Renderable left → Renderable right → Renderable (.list [op.header operandType, left, right])
  | calculation (op : Operator) {fields : Fields} {left right : Fragment}
      (huntyped : Untyped fields)
      (hfunction : fields.lookup "function" = some (.string calculateFunction))
      (hitems : fields.lookup "items"
        = some (.list [.mapping [("operator", .string op.name)], left, right])) :
      Renderable left → Renderable right → Renderable (.mapping fields)
  | call {name : String} {fields : Fields} (huntyped : Untyped fields)
      (hfunction : fields.lookup "function" = some (.string name))
      (hname : name ≠ calculateFunction) :
      (∀ entry ∈ fields, Renderable entry.2) → Renderable (.mapping fields)
  /-- A trigger, or a call whose function has been published. -/
  | trigger (name : String) {fields : Fields} (hnodup : (Table.keys fields).Nodup)
      (hfunction : fields.lookup "function" = none)
      (htype : fields.lookup "type" = some (.string name)) : Renderable (.mapping fields)

end Fragment

/-! ### Rendering -/

namespace Renderer

variable (renderer : Renderer)

theorem exists_mapM {α : Type} {xs : List α} {render : α → Except RenderError (List Char)}
    (h : ∀ x ∈ xs, ∃ text, render x = .ok text) :
  ∃ texts, xs.mapM render = .ok texts
  := by
  induction xs with
  | nil => exact ⟨[], rfl⟩
  | cons x rest ih =>
    obtain ⟨⟨text, htext⟩, hrest⟩ := List.forall_mem_cons.mp h
    obtain ⟨texts, htexts⟩ := ih hrest
    refine ⟨text :: texts, ?_⟩
    rw [List.mapM_cons, htext, htexts]
    rfl

theorem exists_renderedFields {fields : Fragment.Fields}
    (h : ∀ entry ∈ fields, ∃ r, renderer.rendered entry.2 = .ok r) :
  ∃ texts, renderer.renderedFields fields = .ok texts
  := by
  induction fields with
  | nil => exact ⟨[], by rw [renderedFields]⟩
  | cons entry rest ih =>
    obtain ⟨field, value⟩ := entry
    obtain ⟨⟨r, hr⟩, hrest⟩ := List.forall_mem_cons.mp h
    obtain ⟨texts, htexts⟩ := ih hrest
    rw [renderedFields, htexts, hr]
    split
    · exact ⟨_, rfl⟩
    · exact ⟨_, rfl⟩

/-- A call is rendered if all that it holds can be rendered. -/
theorem exists_rendered_call {name : String} {fields : Fragment.Fields}
    (hfunction : fields.lookup "function" = some (.string name)) (hname : name ≠ calculateFunction)
    (h : ∀ entry ∈ fields, ∃ r, renderer.rendered entry.2 = .ok r) :
  ∃ r, renderer.rendered (.mapping fields) = .ok r
  := by
  by_cases hvariable : name = variableFunction
  · rw [hvariable] at hfunction
    exact ⟨_, renderer.rendered_variable hfunction⟩
  cases hsignature : renderer.catalog.get? name with
  | none =>
    obtain ⟨texts, htexts⟩ := renderer.exists_renderedFields h
    rw [rendered]
    simp only [hfunction]
    rw [renderedCall, if_neg hname, if_neg hvariable]
    simp only [hsignature, htexts]
    exact ⟨_, rfl⟩
  | some signature =>
    by_cases hnil : signature.parameters = []
    · exact ⟨_, renderer.rendered_constant hfunction hsignature hname hvariable hnil⟩
    · have harguments : ∀ p ∈ signature.parameters,
          ∃ text, renderer.argumentText fields p = .ok text := by
        intro p _
        rw [argumentText]
        split
        · rename_i value hvalue
          obtain ⟨r, hr⟩ := h _ (Table.mem_of_lookup hvalue)
          rw [hr]
          exact ⟨_, rfl⟩
        · exact ⟨[], rfl⟩
      obtain ⟨texts, htexts⟩ := exists_mapM harguments
      rw [renderer.rendered_call hfunction hsignature hname hvariable hnil, htexts]
      exact ⟨_, rfl⟩

end Renderer

namespace Fragment

theorem Renderable.exists_rendered {f : Fragment} (h : f.Renderable) (renderer : Renderer) :
  ∃ r, renderer.rendered f = .ok r
  := by
  induction h with
  | @primitive f h =>
    cases f with
    | boolean b => cases b <;> exact ⟨_, by rw [Renderer.rendered]⟩
    | integer | float | string => exact ⟨_, by rw [Renderer.rendered]⟩
    | _ => cases h
  | condition op operandType _ _ ihleft ihright =>
    obtain ⟨l, hl⟩ := ihleft
    obtain ⟨r, hr⟩ := ihright
    rw [Operator.header, Renderer.rendered_condition, hl, hr]
    exact ⟨_, rfl⟩
  | calculation op _ hfunction hitems _ _ ihleft ihright =>
    obtain ⟨l, hl⟩ := ihleft
    obtain ⟨r, hr⟩ := ihright
    rw [Renderer.rendered_items hfunction hitems, hl, hr]
    exact ⟨_, rfl⟩
  | call _ hfunction hname _ ih => exact renderer.exists_rendered_call hfunction hname ih
  | trigger _ _ hfunction htype =>
    rw [Renderer.rendered]
    simp only [hfunction, htype]
    exact ⟨_, rfl⟩

theorem Renderable.exists_render {f : Fragment} (h : f.Renderable) (renderer : Renderer) :
  ∃ text, renderer.render f = .ok text
  := by
  obtain ⟨r, hr⟩ := h.exists_rendered renderer
  exact ⟨r.text, by rw [Renderer.render, hr]; rfl⟩

/-! ### Fields that are set -/

theorem Untyped.set {fields : Fields} (h : Untyped fields) {key : String} (hkey : key ≠ "type")
    (value : Fragment) :
  Untyped (Table.set key value fields)
  := by
  refine ⟨Table.nodup_keys_set h.nodup key value, fun hmem => ?_⟩
  obtain ⟨entry, hentry, htype⟩ := List.mem_map.mp hmem
  rcases Table.mem_set hentry with rfl | hentry
  · exact hkey htype
  · exact h.untyped (htype ▸ List.mem_map_of_mem hentry)

/-- Setting a field that says nothing about the function leaves a fragment that can be
rendered. -/
theorem Renderable.setField {f : Fragment} (h : f.Renderable) {key : String}
    (hkey : key ∉ ["function", "items", "type"]) (s : String) :
  (f.setField key (.string s)).Renderable
  := by
  simp only [List.mem_cons, List.not_mem_nil, or_false, not_or] at hkey
  obtain ⟨hfunctionKey, hitemsKey, htypeKey⟩ := hkey
  have hlookup : ∀ (fields : Fields) {other : String}, key ≠ other →
      (Table.set key (.string s) fields).lookup other = fields.lookup other :=
    fun fields _ hne => Table.lookup_set_of_ne hne.symm _ fields
  cases h with
  | @primitive f h =>
    cases f with
    | mapping => cases h
    | _ => exact .primitive h
  | condition op operandType hleft hright => exact .condition op operandType hleft hright
  | calculation op huntyped hfunction hitems hleft hright =>
    exact .calculation op (huntyped.set htypeKey _) ((hlookup _ hfunctionKey).trans hfunction)
      ((hlookup _ hitemsKey).trans hitems) hleft hright
  | call huntyped hfunction hname harguments =>
    refine .call (huntyped.set htypeKey _) ((hlookup _ hfunctionKey).trans hfunction) hname ?_
    intro entry hentry
    rcases Table.mem_set hentry with rfl | hentry
    · exact .primitive rfl
    · exact harguments entry hentry
  | trigger name hnodup hfunction htype =>
    exact .trigger name (Table.nodup_keys_set hnodup key _)
      ((hlookup _ hfunctionKey).trans hfunction) ((hlookup _ htypeKey).trans htype)

/-! ### Processing -/

section

variable (table : SideTable) (name : String)

/-- Processing keeps a field under its name, or writes a string there. -/
theorem of_mem_stripFields {effects : List FieldEffect} {writes : List (String × String)}
    {fields : Fields} {entry : String × Fragment}
    (h : entry ∈ (stripFields effects writes fields).value) :
  (∃ s, entry.2 = .string s)
    ∨ ∃ value, (entry.1, value) ∈ fields ∧ entry.2 = (strip effects entry.1 value).value
  := by
  induction fields with
  | nil => cases h
  | cons first rest ih =>
    obtain ⟨field, value⟩ := first
    have hrest : ∀ {entry : String × Fragment},
        ((∃ s, entry.2 = .string s)
          ∨ ∃ value, (entry.1, value) ∈ rest ∧ entry.2 = (strip effects entry.1 value).value) →
        (∃ s, entry.2 = .string s)
          ∨ ∃ other, (entry.1, other) ∈ (field, value) :: rest
            ∧ entry.2 = (strip effects entry.1 other).value :=
      fun h => h.imp_right fun ⟨other, hother, heq⟩ => ⟨other, List.mem_cons_of_mem _ hother, heq⟩
    rw [stripFields] at h
    split at h
    · exact hrest (ih h)
    · split at h
      · rcases List.mem_cons.mp h with rfl | h
        · exact .inl ⟨_, rfl⟩
        · exact hrest (ih h)
      · rcases List.mem_cons.mp h with rfl | h
        · exact .inr ⟨value, List.mem_cons_self, rfl⟩
        · exact hrest (ih h)

theorem of_mem_processedFields {fields : Fields} {entry : String × Fragment}
    (h : entry ∈ processedFields table name fields) :
  (∃ s, entry.2 = .string s)
    ∨ ∃ value, (entry.1, value) ∈ fields ∧ entry.2 = (strip [.bind table] entry.1 value).value
  := by
  rcases List.mem_append.mp h with h | h
  · exact of_mem_stripFields h
  · obtain ⟨write, -, rfl⟩ := List.mem_map.mp h
    exact .inl ⟨_, rfl⟩

theorem Untyped.processedFields {fields : Fields} (h : Untyped fields) :
  Untyped (processedFields table name fields)
  := by
  refine ⟨nodup_keys_processedFields table name h.nodup, fun hmem => ?_⟩
  rcases of_mem_keys_processedFields table name hmem with hmem | heq | heq
  · exact h.untyped hmem
  · simp at heq
  · simp at heq

/-- Processing leaves a fragment that can be rendered. -/
theorem Renderable.strip {f : Fragment} (h : f.Renderable) :
  (strip [.bind table] name f).value.Renderable
  := by
  induction h generalizing name with
  | @primitive f h => exact (strip_primitive h _ name).symm ▸ .primitive h
  | @condition op operandType left right _ _ ihleft ihright =>
    obtain ⟨l, r, hstrip⟩ := exists_strip_condition op operandType table left right name
    rw [hstrip]
    exact .condition op operandType (ihleft l) (ihright r)
  | @calculation op fields left right huntyped hfunction hitems _ _ ihleft ihright =>
    obtain ⟨l, r, hstrip⟩ := exists_strip_items op table left right "items"
    rw [strip_eq_processedFields]
    refine .calculation op (huntyped.processedFields table name) ?_ ?_ (ihleft l) (ihright r)
    · rw [lookup_processedFields table name (by decide) (by decide), hfunction]
      rfl
    · rw [lookup_processedFields table name (by decide) (by decide), hitems, Option.map_some,
        hstrip]
  | call huntyped hfunction hname _ ih =>
    rw [strip_eq_processedFields]
    refine .call (huntyped.processedFields table name) ?_ hname ?_
    · rw [lookup_processedFields table name (by decide) (by decide), hfunction]
      rfl
    · intro entry hentry
      rcases of_mem_processedFields table name hentry with ⟨s, hs⟩ | ⟨value, hvalue, hs⟩
      · exact hs ▸ .primitive rfl
      · exact hs ▸ ih _ hvalue entry.1
  | trigger trigger hnodup hfunction htype =>
    rw [strip_eq_processedFields]
    refine .trigger trigger (nodup_keys_processedFields table name hnodup) ?_ ?_
    · rw [lookup_processedFields table name (by decide) (by decide), hfunction]
      rfl
    · rw [lookup_processedFields table name (by decide) (by decide), htype]
      rfl

end

/-! ### Publishing -/

/-- A field of an action after publishing the branch of a block that may stand in it. -/
def publishBranch (entry : String × Fragment) : String × Fragment :=
  (entry.1,
    match entry.2 with
    | .list actions => if isBranchField entry.1 then .list (publishAll actions) else entry.2
    | value => value)

theorem publishField_eq (entry : String × Fragment) :
  publishField entry = published (publishBranch entry)
  := by
  obtain ⟨field, value⟩ := entry
  by_cases hfield : field = "function"
  · subst hfield
    cases value <;> rfl
  · simp only [publishField, published, publishBranch, if_neg hfield]
    cases value <;> rfl

theorem keys_publishBranch (fields : Fields) :
  Table.keys (fields.map publishBranch) = Table.keys fields
  := by
  rw [Table.keys, List.map_map]
  rfl

/-- Only fields of branches change. -/
theorem lookup_publishBranch {key : String} (h : isBranchField key = false) (fields : Fields) :
  (fields.map publishBranch).lookup key = fields.lookup key
  := by
  induction fields with
  | nil => rfl
  | cons entry rest ih =>
    obtain ⟨field, value⟩ := entry
    rw [List.map_cons, publishBranch, List.lookup_cons, List.lookup_cons, ih]
    by_cases hfield : key = field
    · subst hfield
      cases value <;> simp [h]
    · rw [beq_eq_false_iff_ne.mpr hfield]

/-- Publishing an action publishes the branches in it and then renames the field of its
function. -/
theorem publishFields_eq (fields : Fields) :
  publishFields fields = (fields.map publishBranch).map published
  := by
  rw [publishFields_eq_map, List.map_map]
  exact List.map_congr_left fun entry _ => publishField_eq entry

namespace Untyped

theorem publishBranch {fields : Fields} (h : Untyped fields) :
  Untyped (fields.map publishBranch)
  := by
  constructor
  · rw [keys_publishBranch]
    exact h.nodup
  · rw [keys_publishBranch]
    exact h.untyped

theorem publish_eq {fields : Fields} (h : Untyped fields) :
  (mapping fields).publish = .mapping ((fields.map Fragment.publishBranch).map published)
  := by
  rw [publish, publishFields_eq, Table.ofEntries_of_nodup h.publishBranch.nodup_published]

end Untyped

namespace Renderable

/-- A published call can be rendered, if as a trigger. -/
theorem publish_call {fields : Fields} {name : String} (huntyped : Untyped fields)
    (hfunction : fields.lookup "function" = some (.string name)) :
  (mapping fields).publish.Renderable
  := by
  rw [huntyped.publish_eq]
  apply trigger name huntyped.publishBranch.nodup_published
  · exact lookup_function_published _
  · rw [huntyped.publishBranch.lookup_type_published, lookup_publishBranch rfl, hfunction]

/-- A fragment that can be rendered can be rendered after publishing it. -/
theorem publish {f : Fragment} (h : f.Renderable) :
  f.publish.Renderable
  := by
  cases h with
  | @primitive f h =>
    cases f with
    | mapping => cases h
    | _ => exact .primitive h
  | condition op operandType hleft hright => exact .condition op operandType hleft hright
  | calculation op huntyped hfunction => exact publish_call huntyped hfunction
  | call huntyped hfunction => exact publish_call huntyped hfunction
  | @trigger name fields hnodup hfunction htype =>
    have hkeep : (fields.map publishBranch).map published = fields.map publishBranch := by
      rw [List.map_map]
      apply List.map_congr_left
      intro entry hentry
      rw [List.lookup_eq_none_iff] at hfunction
      exact if_neg (bne_iff_ne.mp (hfunction entry hentry)).symm
    rw [Fragment.publish, publishFields_eq, hkeep, Table.ofEntries_of_nodup]
    · apply trigger name
      · rw [keys_publishBranch]
        exact hnodup
      · rw [lookup_publishBranch rfl, hfunction]
      · rw [lookup_publishBranch rfl, htype]
    · rw [keys_publishBranch]
      exact hnodup

/-- Operands that stand where a block has a branch are published like actions. -/
theorem publishAll {parts : List Fragment} (h : (list parts).Renderable) :
  (list (publishAll parts)).Renderable
  := by
  cases h with
  | primitive h => cases h
  | @condition op operandType left right hleft hright =>
    have hheader : (op.header operandType).publish = op.header operandType := by
      simp [Operator.header, Fragment.publish, publishFields, Table.ofEntries, Table.setAll,
        Table.set]
    rw [Fragment.publishAll, Fragment.publishAll, Fragment.publishAll, Fragment.publishAll, hheader]
    exact .condition op operandType hleft.publish hright.publish

/-- A call can be rendered after publishing the branches in it. -/
theorem publishBranch {fields : Fields} (h : (mapping fields).Renderable) :
  (mapping (fields.map publishBranch)).Renderable
  := by
  cases h with
  | primitive h => cases h
  | calculation op huntyped hfunction hitems hleft hright =>
    exact .calculation op huntyped.publishBranch ((lookup_publishBranch rfl _).trans hfunction)
      ((lookup_publishBranch rfl _).trans hitems) hleft hright
  | call huntyped hfunction hname harguments =>
    refine .call huntyped.publishBranch ((lookup_publishBranch rfl _).trans hfunction) hname ?_
    intro entry hentry
    obtain ⟨⟨field, value⟩, hvalue, rfl⟩ := List.mem_map.mp hentry
    have hrenderable := harguments _ hvalue
    cases value with
    | list parts =>
      simp only [Fragment.publishBranch]
      split
      · exact hrenderable.publishAll
      · exact hrenderable
    | _ => exact hrenderable
  | trigger name hnodup hfunction htype =>
    refine .trigger name ?_ ((lookup_publishBranch rfl _).trans hfunction)
      ((lookup_publishBranch rfl _).trans htype)
    rw [keys_publishBranch]
    exact hnodup

end Renderable

/-! ### Actions -/

/-- The fragment can be rendered as an action: it is no trigger, and it does not look like a
block once it is published. -/
structure Performable (f : Fragment) : Prop where
  renderable : f.Renderable
  called : ∀ fields, f = .mapping fields →
    ∃ name, fields.lookup "function" = some (.string name)
      ∧ (name = "condition" → "then" ∉ Table.keys fields)

namespace Performable

variable {f : Fragment} (h : f.Performable)

include h

theorem setField {key : String} (hkey : key ∉ ["function", "items", "type", "then"]) (s : String) :
  (f.setField key (.string s)).Performable
  := by
  simp only [List.mem_cons, List.not_mem_nil, or_false, not_or] at hkey
  obtain ⟨hfunctionKey, hitemsKey, htypeKey, hthenKey⟩ := hkey
  refine ⟨h.renderable.setField (by simp [hfunctionKey, hitemsKey, htypeKey]) s, ?_⟩
  intro set hset
  cases f with
  | mapping fields =>
    cases hset
    obtain ⟨name, hname, hblock⟩ := h.called fields rfl
    refine ⟨name, (Table.lookup_set_of_ne (Ne.symm hfunctionKey) _ _).trans hname, ?_⟩
    intro hcondition hmem
    obtain ⟨entry, hentry, hthen⟩ := List.mem_map.mp hmem
    rcases Table.mem_set hentry with rfl | hentry
    · exact hthenKey hthen
    · exact hblock hcondition (hthen ▸ List.mem_map_of_mem hentry)
  | _ => cases hset

theorem strip (table : SideTable) (name : String) :
  (strip [.bind table] name f).value.Performable
  := by
  refine ⟨h.renderable.strip table name, ?_⟩
  intro processed hprocessed
  cases f with
  | mapping fields =>
    rw [strip_eq_processedFields] at hprocessed
    cases hprocessed
    obtain ⟨function, hfunction, hblock⟩ := h.called fields rfl
    refine ⟨function, ?_, fun hcondition hmem => ?_⟩
    · rw [lookup_processedFields table name (by decide) (by decide), hfunction]
      rfl
    · rcases of_mem_keys_processedFields table name hmem with hmem | heq | heq
      · exact hblock hcondition hmem
      · simp at heq
      · simp at heq
  | list items =>
    rw [Fragment.strip] at hprocessed
    cases hprocessed
  | _ => cases hprocessed

/-- A published action is rendered as lines. -/
theorem exists_actionLines (renderer : Renderer) (depth : Nat) :
  ∃ lines, renderer.actionLines depth f.publish = .ok lines
  := by
  cases f with
  | mapping fields =>
    obtain ⟨name, hname, hblock⟩ := h.called fields rfl
    have huntyped : Untyped fields := by
      cases h.renderable with
      | primitive hprimitive => cases hprimitive
      | calculation _ huntyped => exact huntyped
      | call huntyped => exact huntyped
      | trigger _ _ hfunction =>
        rw [hfunction] at hname
        cases hname
    have hnoBlock : Renderer.isBlock ((fields.map publishBranch).map published) = false := by
      rw [Renderer.isBlock, huntyped.publishBranch.lookup_type_published, lookup_publishBranch rfl,
        hname]
      by_cases hcondition : name = "condition"
      · rw [Publishable.lookup_published (by decide) (by decide),
          Table.lookup_eq_none_of_notMem ((keys_publishBranch fields).symm ▸ hblock hcondition)]
        exact Bool.and_false _
      · simp [hcondition]
    obtain ⟨text, htext⟩ := h.renderable.publishBranch.exists_render renderer
    rw [huntyped.publish_eq, Renderer.actionLines, hnoBlock,
      Renderer.unpublish_published huntyped.publishBranch, Renderer.actionLine, htext]
    exact ⟨_, rfl⟩
  | _ =>
    obtain ⟨text, htext⟩ := h.renderable.exists_render renderer
    rw [Fragment.publish, Renderer.actionLines, Renderer.actionLine, htext]
    · exact ⟨_, rfl⟩
    all_goals simp

end Performable

end Fragment

end TriggerLang
