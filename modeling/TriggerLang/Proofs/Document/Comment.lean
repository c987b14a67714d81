import TriggerLang.Document.Basic

/-!
# Comments of fragments

A comment is a field of the fragment it is attached to.  Stripping and publishing treat the
fields of a fragment one by one, so they do the same to it with and without its comment.
-/

namespace TriggerLang.Fragment

/-- The fragment without its comment. -/
def withoutComment : Fragment → Fragment
  | .mapping fields => .mapping (fields.filter (·.1 != "comment"))
  | fragment => fragment

@[simp]
theorem withoutComment_setField (fragment value : Fragment) :
  (fragment.setField "comment" value).withoutComment = fragment.withoutComment
  := by
  cases fragment <;> simp [setField, withoutComment, Table.filter_set]

/-- The published form of a field. -/
def publishField (entry : String × Fragment) : String × Fragment :=
  if entry.1 = "function" then
    ("type", entry.2)
  else
    (entry.1,
      match entry.2 with
      | .list actions => if isBranchField entry.1 then .list (publishAll actions) else entry.2
      | _ => entry.2)

theorem publishFields_eq_map (fields : Fields) :
  publishFields fields = fields.map publishField
  := by
  induction fields with
  | nil => rfl
  | cons entry rest ih =>
    obtain ⟨field, value⟩ := entry
    rw [List.map_cons, ← ih]
    cases value <;> rfl

theorem publishAll_eq_map (actions : List Fragment) :
  publishAll actions = actions.map publish
  := by
  induction actions with
  | nil => rfl
  | cons action rest ih => rw [publishAll, ih, List.map_cons]

/-- A comment stays one when it is published, and nothing becomes one. -/
theorem publishField_comment (entry : String × Fragment) :
  ((publishField entry).1 != "comment") = (entry.1 != "comment")
  := by
  unfold publishField
  split
  · rename_i h
    simp [h]
  · rfl

theorem withoutComment_publish (fragment : Fragment) :
  fragment.publish.withoutComment = fragment.withoutComment.publish
  := by
  cases fragment with
  | mapping fields =>
    rw [publish, withoutComment, Table.ofEntries, Table.filter_setAll, List.filter_nil,
      withoutComment, publish, Table.ofEntries, publishFields_eq_map, publishFields_eq_map,
      List.filter_map]
    simp only [Function.comp_def, publishField_comment]
  | _ => rfl

theorem filter_stripFields (fields : Fields) :
  (stripFields [] [] fields).value.filter (·.1 != "comment")
    = (stripFields [] [] (fields.filter (·.1 != "comment"))).value
  := by
  induction fields with
  | nil => rfl
  | cons entry rest ih =>
    obtain ⟨field, value⟩ := entry
    cases hfield : isReserved field <;> by_cases hcomment : field = "comment" <;>
      simp_all [stripFields]

theorem withoutComment_stripReserved (fragment : Fragment) :
  fragment.stripReserved.withoutComment = fragment.withoutComment.stripReserved
  := by
  cases fragment with
  | mapping fields =>
    change mapping (((stripFields [] [] fields).value ++ []).filter _)
      = mapping ((stripFields [] [] (fields.filter _)).value ++ [])
    rw [List.append_nil, List.append_nil, filter_stripFields]
  | _ => rfl

end TriggerLang.Fragment
