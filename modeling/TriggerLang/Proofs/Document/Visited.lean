import Mathlib.Data.List.Count
import TriggerLang.Proofs.Document.Bound

/-!
# What effects see

While a fragment is stripped its effects are run at every visit, and they can add fields to a
mapping before the fields of the mapping are visited.  Still the notes that are taken on the way
list what is left in the end: the names of all values of the stripped fragment, from the outside
in and from left to right, those included that an effect has added, and nothing of what has been
dropped.
-/

namespace TriggerLang

/-- A field that is set again and again stays as it is. -/
theorem Table.setAll_replicate {α : Type} (key : String) (value : α) (n : Nat) :
  setAll [(key, value)] (List.replicate n (key, value)) = [(key, value)]
  := by
  induction n with
  | zero => rfl
  | succ n ih =>
    rw [List.replicate_succ, setAll, List.foldl_cons, set, if_pos rfl]
    exact ih

namespace FieldEffect

/-- Each effect that notes the name of a visit notes it once. -/
theorem notes_eq_replicate (effects : List FieldEffect) (name : String) :
  notes effects name = List.replicate (effects.count .record) name
  := by
  induction effects with
  | nil => rfl
  | cons effect rest ih =>
    rw [notes, List.flatMap_cons, ← notes, ih, List.count_cons]
    by_cases heffect : effect = .record
    · rw [if_pos heffect, if_pos (beq_iff_eq.mpr heffect), List.replicate_succ]
      rfl
    · rw [if_neg heffect, if_neg (mt beq_iff_eq.mp heffect)]
      rfl

section

variable {effects : List FieldEffect} (h : ∀ effect ∈ effects, effect = .record ∨ effect = .mark)

include h

/-- Without `_mark` nothing is set. -/
theorem flatMap_writes_of_none {fields : Fragment.Fields} (hmark : fields.lookup "_mark" = none)
    (name : String) :
  effects.flatMap (writes name fields) = []
  := by
  rw [List.flatMap_eq_nil_iff]
  intro effect heffect
  rcases h effect heffect with rfl | rfl
  · rfl
  · simp [writes, hmark]

/-- With `_mark` the same field is set over and over. -/
theorem flatMap_writes_of_some {fields : Fragment.Fields} {value : Fragment}
    (hmark : fields.lookup "_mark" = some value) (name : String) :
  effects.flatMap (writes name fields) = List.replicate (effects.count .mark) ("marked", name)
  := by
  induction effects with
  | nil => rfl
  | cons effect rest ih =>
    rw [List.forall_mem_cons] at h
    rw [List.flatMap_cons, ih h.2]
    rcases h.1 with rfl | rfl
    · simp [writes]
    · simp [writes, hmark, List.replicate_succ]

/-- A mapping with `_mark` is marked with the name that it is visited under. -/
theorem allWrites_eq (name : String) (fields : Fragment.Fields) :
  allWrites effects name fields
    = if effects.contains .mark && (fields.lookup "_mark").isSome then [("marked", name)] else []
  := by
  rw [allWrites]
  cases hmark : fields.lookup "_mark" with
  | none =>
    rw [flatMap_writes_of_none h hmark, Option.isSome_none, Bool.and_false]
    rfl
  | some value =>
    rw [flatMap_writes_of_some h hmark, Option.isSome_some, Bool.and_true]
    cases hcount : effects.count .mark with
    | zero =>
      have hnot : effects.contains .mark = false := by
        simpa using List.count_eq_zero.mp hcount
      rw [hnot]
      rfl
    | succ n =>
      have hmem : effects.contains .mark = true := by
        simpa using List.count_pos_iff.mp (hcount ▸ n.succ_pos)
      rw [hmem, List.replicate_succ]
      exact Table.setAll_replicate "marked" name n

end

end FieldEffect

namespace Fragment

/-! ### Names -/

mutual

/-- The names of the fragment and of all that is in it, from the outside in and from left to
right: a value is named by its field or by its place in its list. -/
def names (name : String) : Fragment → List String
  | .mapping fields => name :: namesOfFields fields
  | .list items => name :: namesOfItems 0 items
  | _ => [name]

/-- The names of items of a list from the place `index` on. -/
def namesOfItems (index : Nat) : List Fragment → List String
  | [] => []
  | item :: rest =>
    names (String.ofList (Nat.toDigits 10 index)) item ++ namesOfItems (index + 1) rest

/-- The names of fields and of all that is in them. -/
def namesOfFields : Fields → List String
  | [] => []
  | (field, value) :: rest => names field value ++ namesOfFields rest

end

@[simp]
theorem names_string (name value : String) :
  names name (.string value) = [name]
  := rfl

theorem namesOfFields_append (fields others : Fields) :
  namesOfFields (fields ++ others) = namesOfFields fields ++ namesOfFields others
  := by
  induction fields with
  | nil => rfl
  | cons entry rest ih => rw [List.cons_append, namesOfFields, namesOfFields, ih, List.append_assoc]

theorem namesOfFields_strings (writes : List (String × String)) :
  namesOfFields (writes.map fun write => (write.1, .string write.2)) = writes.map Prod.fst
  := by
  induction writes with
  | nil => rfl
  | cons write rest ih =>
    rw [List.map_cons, namesOfFields, ih, names_string]
    rfl

section

variable (effects : List FieldEffect)

/-- The fields that effects add are noted as they are kept. -/
theorem visited_addWrites (fields : Fields) (writes : List (String × String)) :
  (addWrites effects fields writes).visited
    = (namesOfFields (addWrites effects fields writes).value).flatMap (FieldEffect.notes effects)
  := by
  rw [addWrites]
  dsimp only
  rw [namesOfFields_strings, List.flatMap_map]

mutual

/-- The notes list the names of what is kept. -/
theorem visited_strip (name : String) (fragment : Fragment) :
  (strip effects name fragment).visited
    = (names name (strip effects name fragment).value).flatMap (FieldEffect.notes effects)
  := by
  match fragment with
  | .mapping fields =>
    rw [strip]
    dsimp only
    rw [names, List.flatMap_cons, namesOfFields_append, List.flatMap_append,
      visited_stripFields, visited_addWrites, List.append_assoc]
  | .list items =>
    rw [strip]
    dsimp only
    rw [names, List.flatMap_cons, visited_stripItems]
  | .null | .boolean _ | .integer _ | .float _ | .string _ =>
    exact (List.flatMap_singleton _ _).symm

theorem visited_stripItems (index : Nat) (items : List Fragment) :
  (stripItems effects index items).visited
    = (namesOfItems index (stripItems effects index items).value).flatMap
        (FieldEffect.notes effects)
  := by
  match items with
  | [] => rfl
  | item :: rest =>
    rw [stripItems]
    dsimp only
    rw [namesOfItems, List.flatMap_append, visited_strip, visited_stripItems]

theorem visited_stripFields (writes : List (String × String)) (fields : Fields) :
  (stripFields effects writes fields).visited
    = (namesOfFields (stripFields effects writes fields).value).flatMap
        (FieldEffect.notes effects)
  := by
  match fields with
  | [] => rfl
  | (field, value) :: rest =>
    have hrest := visited_stripFields writes rest
    rw [stripFields]
    split
    · exact hrest
    split
    · dsimp only
      rw [namesOfFields, names_string, List.flatMap_append, List.flatMap_singleton, hrest]
    · dsimp only
      rw [namesOfFields, List.flatMap_append, visited_strip, hrest]

end

/-- Every name of what is kept is noted once by each effect that takes notes. -/
theorem visited_strip_eq_replicate (name : String) (fragment : Fragment) :
  (strip effects name fragment).visited
    = (names name (strip effects name fragment).value).flatMap
        fun name => List.replicate (effects.count .record) name
  := by
  rw [visited_strip, funext (FieldEffect.notes_eq_replicate effects)]

end

/-! ### What is kept -/

/-- The fields that are kept of a mapping, with its name under `marked` if it has `_mark`. -/
def setMarked (marks : Bool) (name : String) (fields kept : Fields) : Fields :=
  if marks && (fields.lookup "_mark").isSome then
    Table.set "marked" (.string name) kept
  else
    kept

mutual

/-- What is kept of a fragment under a name: all but its reserved fields, with the name of each
mapping that has `_mark` set in it where mappings are marked. -/
def kept (marks : Bool) (name : String) : Fragment → Fragment
  | .mapping fields => .mapping (setMarked marks name fields (keptFields marks fields))
  | .list items => .list (keptItems marks 0 items)
  | fragment => fragment

/-- What is kept of items of a list from the place `index` on. -/
def keptItems (marks : Bool) (index : Nat) : List Fragment → List Fragment
  | [] => []
  | item :: rest =>
    kept marks (String.ofList (Nat.toDigits 10 index)) item :: keptItems marks (index + 1) rest

/-- What is kept of fields. -/
def keptFields (marks : Bool) : Fields → Fields
  | [] => []
  | (field, value) :: rest =>
    if isReserved field then
      keptFields marks rest
    else
      (field, kept marks field value) :: keptFields marks rest

end

section

variable {effects : List FieldEffect}

/-- A written field is set in what is kept of the others. -/
theorem stripFields_append_addWrites {key : String} (hkey : isReserved key = false)
    {fields : Fields} (h : (Table.keys fields).Nodup) (written : String) :
  (stripFields effects [(key, written)] fields).value
      ++ (addWrites effects fields [(key, written)]).value
    = Table.set key (.string written) (stripFields effects [] fields).value
  := by
  induction fields with
  | nil => rfl
  | cons entry rest ih =>
    obtain ⟨field, value⟩ := entry
    obtain ⟨hfresh, hrest⟩ : field ∉ Table.keys rest ∧ (Table.keys rest).Nodup := by
      simpa [Table.keys] using h
    by_cases hfield : key = field
    · -- the field is there, and nothing is added
      subst hfield
      have hadded : (addWrites effects ((key, value) :: rest) [(key, written)]).value = [] := by
        rw [addWrites_cons, List.filter_cons_of_neg (by simp), List.filter_nil]
        rfl
      have hdropped : stripFields effects [(key, written)] rest = stripFields effects [] rest := by
        rw [← stripFields_filter hfresh [(key, written)], List.filter_cons_of_neg (by simp),
          List.filter_nil]
      rw [hadded, List.append_nil, stripFields, stripFields, hdropped]
      simp [hkey, Table.set]
    · have hadded : addWrites effects ((field, value) :: rest) [(key, written)]
          = addWrites effects rest [(key, written)] := by
        rw [addWrites_cons, List.filter_cons_of_pos (by simpa using hfield), List.filter_nil]
      have hlookup : [(key, written)].lookup field = none := by
        rw [List.lookup_cons, beq_eq_false_iff_ne.mpr (Ne.symm hfield)]
        rfl
      rw [hadded, stripFields, stripFields, hlookup]
      cases hreserved : isReserved field with
      | true => exact ih hrest
      | false => simp [Table.set, Ne.symm hfield, ih hrest]

mutual

/-- What is kept of a fragment is known from the fragment alone. -/
theorem strip_eq_kept (h : ∀ effect ∈ effects, effect = .record ∨ effect = .mark)
    (name : String) {fragment : Fragment} (hkeyed : fragment.Keyed) :
  (strip effects name fragment).value = fragment.kept (effects.contains .mark) name
  := by
  match fragment with
  | .mapping fields =>
    have hfields := stripFields_eq_kept h hkeyed.2
    rw [strip, kept, setMarked, FieldEffect.allWrites_eq h]
    dsimp only
    split
    · rw [stripFields_append_addWrites (by decide) hkeyed.1, hfields]
    · rw [← hfields]
      exact congrArg mapping (List.append_nil _)
  | .list items =>
    rw [strip, kept]
    exact congrArg list (stripItems_eq_kept h 0 hkeyed)
  | .null | .boolean _ | .integer _ | .float _ | .string _ => rfl

theorem stripItems_eq_kept (h : ∀ effect ∈ effects, effect = .record ∨ effect = .mark)
    (index : Nat) {items : List Fragment} (hkeyed : KeyedItems items) :
  (stripItems effects index items).value = keptItems (effects.contains .mark) index items
  := by
  match items with
  | [] => rfl
  | item :: rest =>
    rw [stripItems, keptItems, ← strip_eq_kept h _ hkeyed.1,
      ← stripItems_eq_kept h (index + 1) hkeyed.2]

theorem stripFields_eq_kept (h : ∀ effect ∈ effects, effect = .record ∨ effect = .mark)
    {fields : Fields} (hkeyed : KeyedFields fields) :
  (stripFields effects [] fields).value = keptFields (effects.contains .mark) fields
  := by
  match fields with
  | [] => rfl
  | (field, value) :: rest =>
    rw [stripFields, keptFields, ← strip_eq_kept h field hkeyed.1,
      ← stripFields_eq_kept h hkeyed.2]
    split <;> rfl

end

end

/-- Effects see exactly what is kept of a fragment while it is stripped. -/
structure SeenAsKept (effects : List FieldEffect) (fragment : Fragment) : Prop where
  /-- Nothing reserved is kept, at any depth. -/
  unreserved : (strip effects "" fragment).value.Unreserved
  /-- Each effect that takes notes has noted the names of what is kept, in their order. -/
  visited_eq : (strip effects "" fragment).visited
    = (names "" (strip effects "" fragment).value).flatMap
        fun name => List.replicate (effects.count .record) name
  /-- All that is not reserved is kept, and only the names of marked mappings are added. -/
  value_eq : fragment.Keyed →
    (strip effects "" fragment).value = fragment.kept (effects.contains .mark) ""

/-- Effects that take notes and effects that mark mappings see exactly what is kept, in whatever
order they come and however often. -/
theorem seenAsKept {effects : List FieldEffect}
    (h : ∀ effect ∈ effects, effect = .record ∨ effect = .mark) (fragment : Fragment) :
  SeenAsKept effects fragment
  := by
  constructor
  case unreserved => exact strip_unreserved effects "" fragment
  case visited_eq => exact visited_strip_eq_replicate effects "" fragment
  case value_eq => exact strip_eq_kept h ""

/-- Marks in a list and below a mark are seen twice, what is reserved is not seen. -/
theorem seenAsKept_nestedMarks :
  let fragment := mapping [("a", .list [.mapping [("_mark", .integer 0)],
      .mapping [("_mark", .null), ("x", .mapping [("_mark", .integer 1)])]]),
    ("_hidden", .mapping [("y", .integer 2)])]
  (∀ effect ∈ [FieldEffect.record, .mark, .record], effect = .record ∨ effect = .mark)
    ∧ fragment.Keyed
    ∧ (strip [.record, .mark, .record] "" fragment).value
      = .mapping [("a", .list [.mapping [("marked", .string "0")],
          .mapping [("x", .mapping [("marked", .string "x")]), ("marked", .string "1")]])]
    ∧ (strip [.record, .mark, .record] "" fragment).visited
      = ["", "", "a", "a", "0", "0", "marked", "marked", "1", "1", "x", "x", "marked", "marked",
          "marked", "marked"]
  := by
  intro fragment
  have heffects : ∀ effect ∈ [FieldEffect.record, .mark, .record],
      effect = .record ∨ effect = .mark := by
    decide
  have hkeyed : fragment.Keyed := by
    simp [fragment, Keyed, KeyedFields, KeyedItems, Table.keys]
  have hseen := seenAsKept heffects fragment
  have hvalue := hseen.value_eq hkeyed
  refine ⟨heffects, hkeyed, hvalue, ?_⟩
  rw [hseen.visited_eq, hvalue]
  rfl

end Fragment

end TriggerLang
