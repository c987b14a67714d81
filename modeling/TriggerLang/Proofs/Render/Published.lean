import Mathlib.Data.List.Nodup
import TriggerLang.Proofs.Document.Comment
import TriggerLang.Proofs.Render.Calls
import TriggerLang.Render.Document

/-!
# Rendering published actions

Publishing an action renames the field of its function, and rendering it renames the field
back.  So a published action that is no block is rendered as the action that it was, under the
lines of its comment.
-/

namespace TriggerLang

namespace Fragment

/-- No field is there twice, and none is the one under which a published action names its
function. -/
structure Untyped (fields : Fields) : Prop where
  nodup : (Table.keys fields).Nodup
  untyped : "type" ∉ Table.keys fields

/-- No field is there twice, and none is one of a published action or of a block. -/
structure Publishable (fields : Fields) : Prop where
  nodup : (Table.keys fields).Nodup
  unpublished : ∀ key ∈ Table.keys fields, key ∉ ["type", "then", "else"]

/-- The fields are publishable, and there is no comment among them. -/
structure Unadorned (fields : Fields) : Prop extends Publishable fields where
  uncommented : "comment" ∉ Table.keys fields

/-- With a comment, the fields are still publishable. -/
theorem Unadorned.comment {fields : Fields} (h : Unadorned fields) (value : Fragment) :
  Publishable (fields ++ [("comment", value)])
  := by
  constructor
  · rw [Table.keys, List.map_append, List.nodup_append]
    refine ⟨h.nodup, by simp, ?_⟩
    rintro a ha b hb rfl
    obtain rfl := List.mem_singleton.mp hb
    exact h.uncommented ha
  · rw [Table.keys, List.map_append, List.forall_mem_append]
    refine ⟨h.unpublished, ?_⟩
    simp

/-- A field of an action after publishing it. -/
def published (entry : String × Fragment) : String × Fragment :=
  if entry.1 = "function" then ("type", entry.2) else entry

namespace Untyped

variable {fields : Fields} (h : Untyped fields)

include h

theorem ne_of_mem {entry : String × Fragment} (hentry : entry ∈ fields) :
  entry.1 ≠ "type"
  := fun htype => h.untyped (htype ▸ List.mem_map_of_mem hentry)

theorem nodup_published :
  (Table.keys (fields.map published)).Nodup
  := by
  rw [Table.keys, List.map_map]
  apply List.Nodup.map_on _ (List.Nodup.of_map _ h.nodup)
  intro entry hentry other hother heq
  have hkey : entry.1 = other.1 := by
    have htype := h.ne_of_mem hentry
    have hother := h.ne_of_mem hother
    simp only [Function.comp_apply, published] at heq
    split at heq <;> split at heq <;> simp_all
  exact List.inj_on_of_nodup_map h.nodup hentry hother hkey

/-- A published action names its function under `type`. -/
theorem lookup_type_published :
  (fields.map published).lookup "type" = fields.lookup "function"
  := by
  have htype := fun entry hentry => @ne_of_mem fields h entry hentry
  clear h
  induction fields with
  | nil => rfl
  | cons entry rest ih =>
    obtain ⟨field, value⟩ := entry
    obtain ⟨hfirst, hrest⟩ := List.forall_mem_cons.mp htype
    rw [List.map_cons, published]
    split
    · rename_i hfield
      have hfield : field = "function" := hfield
      rw [hfield, List.lookup_cons_self, List.lookup_cons_self]
    · rename_i hfield
      have hfield : field ≠ "function" := hfield
      rw [List.lookup_cons, List.lookup_cons, beq_eq_false_iff_ne.mpr hfirst.symm,
        beq_eq_false_iff_ne.mpr hfield.symm, ih hrest]

end Untyped

theorem lookup_function_published (fields : Fields) :
  (fields.map published).lookup "function" = none
  := by
  rw [List.lookup_eq_none_iff]
  intro entry hentry
  obtain ⟨entry, -, rfl⟩ := List.mem_map.mp hentry
  rw [published, bne_iff_ne]
  split
  · simp
  · rename_i hne
    exact Ne.symm hne

namespace Publishable

variable {fields : Fields} (h : Publishable fields)

include h

theorem toUntyped :
  Untyped fields
  := ⟨h.nodup, fun htype => h.unpublished "type" htype (by simp)⟩

theorem ne_of_mem {entry : String × Fragment} (hentry : entry ∈ fields) :
  entry.1 ≠ "type" ∧ entry.1 ≠ "then" ∧ entry.1 ≠ "else"
  := by
  have hkey := h.unpublished entry.1 (List.mem_map_of_mem hentry)
  simp only [List.mem_cons, List.not_mem_nil, or_false, not_or] at hkey
  exact hkey

theorem publishFields_eq :
  publishFields fields = fields.map published
  := by
  rw [publishFields_eq_map]
  apply List.map_congr_left
  intro entry hentry
  obtain ⟨-, hthen, helse⟩ := h.ne_of_mem hentry
  obtain ⟨field, value⟩ := entry
  rw [publishField, published]
  cases value <;> simp_all [isBranchField]

/-- Publishing renames the field of the function. -/
theorem publish_eq :
  (mapping fields).publish = .mapping (fields.map published)
  := by
  rw [publish, h.publishFields_eq, Table.ofEntries_of_nodup h.toUntyped.nodup_published]

omit h in
theorem lookup_published {key : String} (hfunction : key ≠ "function") (htype : key ≠ "type")
    (fields : Fields) :
  (fields.map published).lookup key = fields.lookup key
  := by
  induction fields with
  | nil => rfl
  | cons entry rest ih =>
    obtain ⟨field, value⟩ := entry
    rw [List.map_cons, published]
    split
    · rename_i hfield
      have hfield : field = "function" := hfield
      rw [List.lookup_cons, List.lookup_cons, beq_eq_false_iff_ne.mpr htype, hfield,
        beq_eq_false_iff_ne.mpr hfunction, ih]
    · rw [List.lookup_cons, List.lookup_cons, ih]

end Publishable

end Fragment

namespace Renderer

variable {fields : Fragment.Fields} (h : Fragment.Publishable fields)

include h

/-- A published action is no block. -/
theorem isBlock_published :
  isBlock (fields.map Fragment.published) = false
  := by
  have habsent : (fields.map Fragment.published).lookup "then" = none := by
    rw [Fragment.Publishable.lookup_published (by decide) (by decide)]
    apply Table.lookup_eq_none_of_notMem
    intro hmem
    exact h.unpublished _ hmem (by simp)
  rw [isBlock, habsent]
  exact Bool.and_false _

omit h in
/-- Rendering renames the field of the function back. -/
theorem unpublish_published (h : Fragment.Untyped fields) :
  unpublish (fields.map Fragment.published) = fields
  := by
  rw [unpublish, Fragment.lookup_function_published, List.map_map]
  conv => rhs; rw [← List.map_id fields]
  apply List.map_congr_left
  intro entry hentry
  have htype := h.ne_of_mem hentry
  obtain ⟨field, value⟩ := entry
  simp only [Function.comp_apply, Fragment.published]
  split <;> simp_all

/-- A published action is rendered as the action that it was, under its comment. -/
theorem actionLines_published (renderer : Renderer) (depth : Nat) :
  renderer.actionLines depth (Fragment.mapping fields).publish
    = (renderer.actionLine depth (.mapping fields)).map fun line =>
        commentLines depth fields ++ [line]
  := by
  have hcomment : commentLines depth (fields.map Fragment.published)
      = commentLines depth fields := by
    rw [commentLines, Fragment.Publishable.lookup_published (by decide) (by decide), commentLines]
  rw [h.publish_eq, actionLines, isBlock_published h, unpublish_published h.toUntyped, hcomment]
  rfl

end Renderer

/-! ### Actions before they are published -/

namespace Renderer

/-- The fields of an action that is not published are left alone. -/
theorem unpublish_of_untyped {fields : Fragment.Fields} (h : Fragment.Untyped fields) :
  unpublish fields = fields
  := by
  rw [unpublish]
  split
  · rfl
  · conv_rhs => rw [← List.map_id fields]
    apply List.map_congr_left
    intro entry hentry
    rw [if_neg (h.ne_of_mem hentry), id]

/-- An action that is not published is no block. -/
theorem isBlock_of_untyped {fields : Fragment.Fields} (h : Fragment.Untyped fields) :
  isBlock fields = false
  := by
  rw [isBlock, Table.lookup_eq_none_of_notMem h.untyped]
  rfl

/-- An action is rendered alike before it is published and afterwards. -/
theorem actionLines_publish (renderer : Renderer) {fields : Fragment.Fields}
    (h : Fragment.Publishable fields) (depth : Nat) :
  renderer.actionLines depth (Fragment.mapping fields).publish
    = renderer.actionLines depth (.mapping fields)
  := by
  rw [actionLines_published h, actionLines, isBlock_of_untyped h.toUntyped,
    unpublish_of_untyped h.toUntyped]
  rfl

end Renderer

namespace Fragment

/-- If the action is a mapping, its fields can be published, and none is a comment. -/
def Bare (action : Fragment) : Prop :=
  ∀ fields, action = .mapping fields → Unadorned fields

namespace Bare

variable {action : Fragment} (h : Bare action) (renderer : Renderer) (depth : Nat)

include h

theorem actionLines_publish :
  renderer.actionLines depth action.publish = renderer.actionLines depth action
  := by
  cases action with
  | mapping fields => exact renderer.actionLines_publish (h fields rfl).toPublishable depth
  | _ => rw [publish]; simp

/-- An action without a comment is rendered as a single line. -/
theorem actionLines_eq :
  renderer.actionLines depth action.publish = (renderer.actionLine depth action).map ([·])
  := by
  cases action with
  | mapping fields =>
    have hunadorned := h fields rfl
    have hcomment : Renderer.commentLines depth fields = [] := by
      rw [Renderer.commentLines, Table.lookup_eq_none_of_notMem hunadorned.uncommented]
    rw [Renderer.actionLines_published hunadorned.toPublishable, hcomment]
    rfl
  | _ =>
    rw [publish, Renderer.actionLines]
    · rfl
    all_goals simp

end Bare

end Fragment

/-! ### Blocks -/

namespace Fragment

/-- The fields of a block with its condition and its branches. -/
def blockFields (condition : Fragment) (thenActions elseActions : List Fragment) : Fields :=
  [("type", .string "condition"), ("conditions", condition), ("then", .list thenActions),
    ("else", .list elseActions)]

/-- The actions in the branches of a block are published with it, its condition is not. -/
theorem publish_block (condition : Fragment) (thenActions elseActions : List Fragment) :
  (mapping (blockFields condition thenActions elseActions)).publish
    = .mapping (blockFields condition (publishAll thenActions) (publishAll elseActions))
  := by
  have hfields : publishFields (blockFields condition thenActions elseActions)
      = blockFields condition (publishAll thenActions) (publishAll elseActions) := by
    rw [publishFields_eq_map]
    cases condition <;> simp [blockFields, publishField, isBranchField]
  rw [publish, hfields, Table.ofEntries_of_nodup]
  simp [blockFields, Table.keys]

end Fragment

namespace Renderer

/-- The lines of the second branch of a block, which is left out if it is empty. -/
def elseLines (renderer : Renderer) (depth : Nat) (actions : List Fragment) :
    Except RenderError (List (List Char)) :=
  if actions.isEmpty then
    .ok []
  else
    (renderer.listLines (depth + 1) actions).map ((indentation depth ++ "else".toList) :: ·)

/-- A block is rendered line by line. -/
theorem actionLines_block (renderer : Renderer) (depth : Nat) (condition : Fragment)
    (thenActions elseActions : List Fragment) :
  renderer.actionLines depth (.mapping (Fragment.blockFields condition thenActions elseActions))
    = do
      let first ← renderer.blockLine depth condition
      let thenLines ← renderer.listLines (depth + 1) thenActions
      let elseLines ← renderer.elseLines depth elseActions
      return first :: (thenLines ++ (elseLines ++ [indentation depth ++ "end".toList]))
  := by
  have hblock : isBlock (Fragment.blockFields condition thenActions elseActions) = true := by
    simp [isBlock, Fragment.blockFields, List.lookup_cons]
  have hcomment : commentLines depth (Fragment.blockFields condition thenActions elseActions)
      = [] := by
    simp [commentLines, Fragment.blockFields, List.lookup_cons]
  have hcondition : (Fragment.blockFields condition thenActions elseActions).lookup "conditions"
      = some condition := by
    simp [Fragment.blockFields, List.lookup_cons]
  have hthen : (Fragment.blockFields condition thenActions elseActions).lookup "then"
      = some (.list thenActions) := by
    simp [Fragment.blockFields, List.lookup_cons]
  have helse : (Fragment.blockFields condition thenActions elseActions).lookup "else"
      = some (.list elseActions) := by
    simp [Fragment.blockFields, List.lookup_cons]
  rw [actionLines, if_pos hblock, hcomment, hcondition]
  split
  · rename_i branch hbranch
    cases helse.symm.trans hbranch
    cases elseActions with
    | nil =>
      simp only [Fragment.isTruthy]
      split
      · rename_i branch hbranch
        cases hthen.symm.trans hbranch
        simp [branchLines, elseLines]
      · rename_i hbranch
        cases hthen.symm.trans hbranch
    | cons action rest =>
      simp only [Fragment.isTruthy]
      split
      · rename_i branch hbranch
        cases hthen.symm.trans hbranch
        simp [branchLines, elseLines]
      · rename_i hbranch
        cases hthen.symm.trans hbranch
  · rename_i hbranch
    cases helse.symm.trans hbranch

end Renderer

/-! ### Documents -/

namespace Renderer

variable (renderer : Renderer)

/-- A document is rendered from its triggers and its actions. -/
theorem documentLines_toFragment (document : Document) :
  renderer.documentLines document.toFragment = (do
    let triggerLines ← document.triggers.mapM triggerLine
    return triggerLines ++ (← renderer.listLines 0 document.actions))
  := by
  rw [← branchLines]
  rfl

theorem documentLines_eq_ok_iff {document : Document} {lines : List (List Char)} :
  renderer.documentLines document.toFragment = .ok lines
    ↔ ∃ triggerLines, document.triggers.mapM triggerLine = .ok triggerLines
      ∧ ∃ actionLines, renderer.listLines 0 document.actions = .ok actionLines
      ∧ lines = triggerLines ++ actionLines
  := by
  rw [documentLines_toFragment]
  cases document.triggers.mapM triggerLine with
  | error e =>
    constructor
    · rintro ⟨⟩
    · rintro ⟨_, ⟨⟩, -⟩
  | ok triggerLines =>
    cases renderer.listLines 0 document.actions with
    | error e =>
      constructor
      · rintro ⟨⟩
      · rintro ⟨_, -, _, ⟨⟩, -⟩
    | ok actionLines =>
      constructor
      · rintro ⟨⟩
        exact ⟨_, rfl, _, rfl, rfl⟩
      · rintro ⟨_, ⟨⟩, _, ⟨⟩, rfl⟩
        rfl

end Renderer

/-! ### Comments are not rendered as arguments -/

namespace Renderer

variable {renderer : Renderer}

theorem renderedFields_comment (value : Fragment) (fields : Fragment.Fields) :
  renderer.renderedFields (fields ++ [("comment", value)]) = renderer.renderedFields fields
  := by
  induction fields with
  | nil =>
    simp [renderedFields, isArgumentField]
  | cons entry rest ih =>
    obtain ⟨field, value⟩ := entry
    rw [List.cons_append, renderedFields, renderedFields, ih]

theorem lookup_comment {key : String} (h : key ≠ "comment") (fields : Fragment.Fields)
    (value : Fragment) :
  (fields ++ [("comment", value)]).lookup key = fields.lookup key
  := by
  rw [List.lookup_append, List.lookup_cons, beq_eq_false_iff_ne.mpr h]
  exact Option.or_none

variable {fields : Fragment.Fields} {r : Rendered}
  (hcatalog : ∀ entry ∈ renderer.catalog.functions, ∀ p ∈ entry.2.parameters, p.field ≠ "comment")

include hcatalog

theorem renderedCall_comment {name : String} (h : renderer.renderedCall name fields = .ok r)
    (value : Fragment) :
  renderer.renderedCall name (fields ++ [("comment", value)]) = .ok r
  := by
  by_cases hcalculate : name = calculateFunction
  · rw [renderedCall, if_pos hcalculate] at h ⊢
    split at h
    · rename_i header left right hitems
      rw [← lookup_comment (by decide) fields value] at hitems
      split
      · rename_i heq
        rw [hitems] at heq
        cases heq
        exact h
      · rename_i hother
        exact absurd hitems (hother _ _ _)
    · cases h
  by_cases hvariable : name = variableFunction
  · rw [renderedCall, if_neg hcalculate, if_pos hvariable] at h ⊢
    rw [Fragment.plainField, lookup_comment (by decide)]
    exact h
  cases hfunction : renderer.catalog.get? name with
  | some signature =>
    by_cases hnil : signature.parameters = []
    · rw [renderedCall, if_neg hcalculate, if_neg hvariable] at h ⊢
      simp only [hfunction, hnil, List.isEmpty_nil, if_true] at h ⊢
      exact h
    · rw [renderer.renderedCall_parameters hfunction hcalculate hvariable hnil] at h ⊢
      rw [← h]
      congr 1
      apply mapM_congr
      intro p hp
      rw [argumentText, argumentText,
        lookup_comment (hcatalog _ (Table.mem_of_lookup hfunction) p hp)]
  | none =>
    rw [renderedCall, if_neg hcalculate, if_neg hvariable] at h ⊢
    simp only [hfunction, renderedFields_comment] at h ⊢
    exact h

/-- An action is rendered without its comment. -/
theorem rendered_comment (h : renderer.rendered (.mapping fields) = .ok r) (value : Fragment) :
  renderer.rendered (.mapping (fields ++ [("comment", value)])) = .ok r
  := by
  rw [rendered] at h ⊢
  rw [lookup_comment (by decide), lookup_comment (by decide)]
  cases hname : fields.lookup "function" with
  | none =>
    simp only [hname] at h ⊢
    split at h
    · exact h
    · cases h
  | some function =>
    cases function with
    | string name =>
      simp only [hname] at h ⊢
      exact renderedCall_comment hcatalog h value
    | null =>
      simp only [hname] at h ⊢
      split at h
      · exact h
      · cases h
    | _ =>
      simp only [hname] at h
      cases h

theorem render_comment {text : List Char} (h : renderer.render (.mapping fields) = .ok text)
    (value : Fragment) :
  renderer.render (.mapping (fields ++ [("comment", value)])) = .ok text
  := by
  cases hrendered : renderer.rendered (.mapping fields) with
  | error e =>
    rw [render, hrendered] at h
    cases h
  | ok r =>
    rw [render, hrendered] at h
    rw [render, rendered_comment hcatalog hrendered]
    exact h

end Renderer

end TriggerLang
