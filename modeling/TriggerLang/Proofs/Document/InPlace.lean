import TriggerLang.Proofs.Document.Visited

/-!
# Effects one after another

What effects set in a mapping is known in advance where a fragment is stripped.  Here they act in
place: at every visit one effect after the other is run on the value, each on what those before it
have left, and only then the value is copied, field by field, the fields included that have been
added on the way.  Effects never set what one of them looks at, so nothing depends on their order
but the last word on a field, and in the end the same is kept and the same is noted.  So effects
that act in place see exactly what is kept, and bind the script's own entity wherever it stands.
-/

namespace TriggerLang

/-! ### Entries of tables -/

namespace Table

variable {α β : Type}

/-- The entry of a key is replaced by the last one that is set, and the others are set in what
follows it. -/
theorem setAll_cons (key : String) (value : α) (rest entries : List (String × α)) :
  setAll ((key, value) :: rest) entries
    = (key, (entries.reverse.lookup key).getD value)
      :: setAll rest (entries.filter (·.1 != key))
  := by
  induction entries generalizing value rest with
  | nil => rfl
  | cons entry others ih =>
    obtain ⟨k, v⟩ := entry
    change setAll (set k v ((key, value) :: rest)) others = _
    rw [set, List.reverse_cons, List.lookup_append]
    by_cases hk : key = k
    · subst hk
      rw [if_pos rfl, ih, List.filter_cons_of_neg (by simp), List.lookup_cons_self]
      cases others.reverse.lookup key <;> rfl
    · rw [if_neg hk, ih, List.filter_cons_of_pos (by simpa using Ne.symm hk), List.lookup_cons,
        beq_eq_false_iff_ne.mpr hk, List.lookup_nil, Option.or_none]
      rfl

theorem set_map_snd (f : α → β) (key : String) (value : α) (table : List (String × α)) :
  set key (f value) (table.map fun entry => (entry.1, f entry.2))
    = (set key value table).map fun entry => (entry.1, f entry.2)
  := by
  induction table with
  | nil => rfl
  | cons entry rest ih =>
    obtain ⟨k, v⟩ := entry
    rw [List.map_cons, set, set, ih]
    split <;> rfl

theorem setAll_map_snd (f : α → β) (table entries : List (String × α)) :
  setAll (table.map fun entry => (entry.1, f entry.2))
      (entries.map fun entry => (entry.1, f entry.2))
    = (setAll table entries).map fun entry => (entry.1, f entry.2)
  := by
  induction entries generalizing table with
  | nil => rfl
  | cons entry rest ih =>
    change setAll (set entry.1 (f entry.2) _) _ = _
    rw [set_map_snd, ih]
    rfl

end Table

namespace FieldEffect

/-! ### Acting in place -/

/-- What an effect leaves of a value that it visits under `name`. -/
def act (name : String) : FieldEffect → Fragment → Fragment
  | .mark, .mapping fields =>
    if (fields.lookup "_mark").isSome then
      .mapping (Table.set "marked" (.string name) fields)
    else
      .mapping fields
  | .bind table, .mapping fields =>
    match bindingOf? table fields with
    | some binding =>
      .mapping (Table.set "key" (.string binding.key)
        (Table.set "entity" (.string binding.entity) fields))
    | none => .mapping fields
  | _, value => value

/-- Run the effects on a value, each on what those before it have left. -/
def visit : List FieldEffect → String → Fragment → Stripped Fragment
  | [], _, value => ⟨value, []⟩
  | effect :: rest, name, value =>
    let others := visit rest name (effect.act name value)
    ⟨others.value, (if effect = .record then [name] else []) ++ others.visited⟩

/-- Written fields as fields of a mapping. -/
def asFields (writes : List (String × String)) : Fragment.Fields :=
  writes.map fun write => (write.1, .string write.2)

section

variable (name : String) (fields : Fragment.Fields)

/-- An effect acts on a mapping by setting the fields that it writes. -/
theorem act_mapping (effect : FieldEffect) :
  effect.act name (.mapping fields)
    = .mapping (Table.setAll fields (asFields (writes name fields effect)))
  := by
  cases effect with
  | record => rfl
  | mark =>
    rw [act, writes]
    split <;> rfl
  | bind table =>
    rw [act, writes]
    cases bindingOf? table fields <;> rfl

theorem act_of_not_isMapping {value : Fragment} (h : value.isMapping = false)
    (effect : FieldEffect) :
  effect.act name value = value
  := by
  cases value with
  | mapping fields => cases h
  | _ => cases effect <;> rfl

/-- What an effect writes is known from three fields. -/
theorem writes_congr {fields fields' : Fragment.Fields}
    (h : ∀ key ∈ ["_mark", "function", "_dataType"], fields.lookup key = fields'.lookup key)
    (effect : FieldEffect) :
  writes name fields effect = writes name fields' effect
  := by
  have hmark := h "_mark" (by simp)
  have hfunction := h "function" (by simp)
  have htype := h "_dataType" (by simp)
  cases effect with
  | record => rfl
  | mark => rw [writes, writes, hmark]
  | bind table =>
    rw [writes, writes, Fragment.bindingOf?_eq, Fragment.bindingOf?_eq, Fragment.ownBinding?,
      Fragment.ownBinding?, hfunction, htype]

/-- No effect writes a field that one of them looks at. -/
theorem notMem_of_mem_writes {effect : FieldEffect} {write : String × String}
    (h : write ∈ writes name fields effect) :
  write.1 ∉ ["_mark", "function", "_dataType"]
  := by
  cases effect with
  | record => cases h
  | mark =>
    simp only [writes] at h
    split at h
    · obtain rfl := List.mem_singleton.mp h
      simp
    · cases h
  | bind table =>
    simp only [writes] at h
    split at h
    · simp only [List.mem_cons, List.not_mem_nil, or_false] at h
      rcases h with rfl | rfl <;> simp
    · cases h

/-- An effect leaves what any of them writes as it was before. -/
theorem writes_setAll (effect other : FieldEffect) :
  writes name (Table.setAll fields (asFields (writes name fields effect))) other
    = writes name fields other
  := by
  apply writes_congr
  intro key hkey
  rw [Table.lookup_setAll, Table.lookup_eq_none_of_notMem, Option.none_or]
  intro hmem
  simp only [Table.keys, asFields, List.map_reverse, List.map_map, List.mem_reverse,
    List.mem_map] at hmem
  obtain ⟨write, hwrite, rfl⟩ := hmem
  exact notMem_of_mem_writes name fields hwrite hkey

/-- Effects that are run on a mapping one after the other set all that they write. -/
theorem visit_mapping (effects : List FieldEffect) :
  visit effects name (.mapping fields)
    = ⟨.mapping (Table.setAll fields (asFields (effects.flatMap (writes name fields)))),
        notes effects name⟩
  := by
  induction effects generalizing fields with
  | nil => rfl
  | cons effect rest ih =>
    have hrest : rest.flatMap (writes name
          (Table.setAll fields (asFields (writes name fields effect))))
        = rest.flatMap (writes name fields) := by
      rw [funext (writes_setAll name fields effect)]
    rw [visit, act_mapping, ih, hrest, List.flatMap_cons, notes, notes, List.flatMap_cons,
      asFields, asFields, asFields, List.map_append, Table.setAll, Table.setAll, Table.setAll,
      List.foldl_append]

theorem visit_of_not_isMapping {value : Fragment} (h : value.isMapping = false)
    (effects : List FieldEffect) :
  visit effects name value = ⟨value, notes effects name⟩
  := by
  induction effects with
  | nil => rfl
  | cons effect rest ih =>
    rw [visit, act_of_not_isMapping name h, ih, notes, notes, List.flatMap_cons]

end

end FieldEffect

namespace Fragment

/-! ### Copying -/

mutual

/-- How many mappings and lists stand within each other in the fragment. -/
def height : Fragment → Nat
  | .mapping fields => heightOfFields fields + 1
  | .list items => heightOfItems items + 1
  | _ => 0

/-- The height of the highest item. -/
def heightOfItems : List Fragment → Nat
  | [] => 0
  | item :: rest => max item.height (heightOfItems rest)

/-- The height of the highest value of a field. -/
def heightOfFields : Fields → Nat
  | [] => 0
  | (_, value) :: rest => max value.height (heightOfFields rest)

end

theorem heightOfFields_le_iff {fields : Fields} {n : Nat} :
  heightOfFields fields ≤ n ↔ ∀ entry ∈ fields, entry.2.height ≤ n
  := by
  induction fields with
  | nil => simp [heightOfFields]
  | cons entry rest ih => rw [heightOfFields, Nat.max_le, ih, List.forall_mem_cons]

/-- Effects add nothing but strings. -/
theorem height_visit_le (effects : List FieldEffect) (name : String) (fragment : Fragment) :
  (FieldEffect.visit effects name fragment).value.height ≤ fragment.height
  := by
  cases fragment with
  | mapping fields =>
    rw [FieldEffect.visit_mapping]
    apply Nat.succ_le_succ
    rw [heightOfFields_le_iff]
    intro entry hentry
    rcases Table.mem_setAll hentry with hentry | hentry
    · exact heightOfFields_le_iff.mp (Nat.le_refl _) entry hentry
    · obtain ⟨write, -, rfl⟩ := List.mem_map.mp hentry
      exact Nat.zero_le _
  | _ =>
    exact Nat.le_of_eq (congrArg (fun seen => seen.value.height)
      (FieldEffect.visit_of_not_isMapping name (by rfl) effects))

mutual

/-- Visit the fragment under `name`, and copy what the effects leave of it. -/
def stripInPlace (effects : List FieldEffect) (name : String) (fragment : Fragment) :
    Stripped Fragment :=
  let seen := FieldEffect.visit effects name fragment
  let copied := copy effects seen.value
  ⟨copied.value, seen.visited ++ copied.visited⟩
termination_by (fragment.height, 1)
decreasing_by exact Prod.Lex.right' _ (height_visit_le effects name fragment) Nat.one_pos

/-- The fragment without its reserved fields, with the effects run on all that is in it. -/
def copy (effects : List FieldEffect) (fragment : Fragment) : Stripped Fragment :=
  match fragment with
  | .mapping fields =>
    let copied := copyFields effects fields
    ⟨.mapping copied.value, copied.visited⟩
  | .list items =>
    let copied := copyItems effects 0 items
    ⟨.list copied.value, copied.visited⟩
  | fragment => ⟨fragment, []⟩
termination_by (fragment.height, 0)
decreasing_by all_goals exact Prod.Lex.left _ _ (Nat.lt_succ_self _)

/-- The items of a list from the place `index` on, each of them visited and copied. -/
def copyItems (effects : List FieldEffect) (index : Nat) (items : List Fragment) :
    Stripped (List Fragment) :=
  match items with
  | [] => ⟨[], []⟩
  | item :: rest =>
    let first := stripInPlace effects (String.ofList (Nat.toDigits 10 index)) item
    let others := copyItems effects (index + 1) rest
    ⟨first.value :: others.value, first.visited ++ others.visited⟩
termination_by (heightOfItems items, items.length + 2)
decreasing_by
  · exact Prod.Lex.right' _ (Nat.le_max_left _ _) (by simp)
  · exact Prod.Lex.right' _ (Nat.le_max_right _ _) (by simp)

/-- The fields that are not reserved, each of them visited and copied. -/
def copyFields (effects : List FieldEffect) (fields : Fields) : Stripped Fields :=
  match fields with
  | [] => ⟨[], []⟩
  | (field, value) :: rest =>
    let others := copyFields effects rest
    if isReserved field then
      others
    else
      let first := stripInPlace effects field value
      ⟨(field, first.value) :: others.value, first.visited ++ others.visited⟩
termination_by (heightOfFields fields, fields.length + 2)
decreasing_by
  · exact Prod.Lex.right' _ (Nat.le_max_right _ _) (by simp)
  · exact Prod.Lex.right' _ (Nat.le_max_left _ _) (by simp)

end

/-! ### The same is kept and noted -/

section

variable (effects : List FieldEffect)

/-- The value that is set last under a name is the one that is written. -/
theorem lookup_asFields (writes : List (String × String)) (field : String) :
  (FieldEffect.asFields writes).reverse.lookup field
    = ((Table.ofEntries writes).lookup field).map .string
  := by
  rw [FieldEffect.asFields, ← List.map_reverse, Table.lookup_map_snd, Table.ofEntries,
    Table.lookup_setAll, List.lookup_nil, Option.or_none]

theorem addWrites_nil (writes : List (String × String)) :
  addWrites effects [] writes
    = ⟨FieldEffect.asFields writes, writes.flatMap fun write => FieldEffect.notes effects write.1⟩
  := by
  rw [addWrites, List.filter_eq_self.mpr]
  · rfl
  · exact fun _ _ => rfl

/-- A value that holds no others is visited and copied as it is. -/
theorem stripInPlace_of_height {fragment : Fragment} (h : fragment.height = 0) (name : String) :
  stripInPlace effects name fragment = ⟨fragment, FieldEffect.notes effects name⟩
  := by
  cases fragment with
  | mapping | list => cases h
  | null | boolean | integer | float | string =>
    rw [stripInPlace, FieldEffect.visit_of_not_isMapping name rfl, copy]
    · exact congrArg (Stripped.mk _) (List.append_nil _)
    · exact fun _ => Fragment.noConfusion
    · exact fun _ => Fragment.noConfusion

/-- The fields that effects have added are all visited and copied. -/
theorem copyFields_asFields {writes : List (String × String)}
    (h : ∀ write ∈ writes, isReserved write.1 = false) :
  copyFields effects (FieldEffect.asFields writes)
    = ⟨FieldEffect.asFields writes, writes.flatMap fun write => FieldEffect.notes effects write.1⟩
  := by
  induction writes with
  | nil =>
    rw [FieldEffect.asFields, List.map_nil, copyFields]
    rfl
  | cons write rest ih =>
    rw [List.forall_mem_cons] at h
    change copyFields effects ((write.1, .string write.2) :: FieldEffect.asFields rest) = _
    rw [copyFields, ih h.2, stripInPlace_of_height effects rfl, h.1]
    rfl

mutual

/-- Effects that act in place lead to what stripping leads to. -/
theorem stripInPlace_eq_strip (name : String) {fragment : Fragment} (h : fragment.Keyed) :
  stripInPlace effects name fragment = strip effects name fragment
  := by
  match fragment with
  | .mapping fields =>
    have hwrites : ∀ write ∈ effects.flatMap (FieldEffect.writes name fields),
        isReserved write.1 = false := by
      intro write hwrite
      obtain ⟨effect, -, hwrite⟩ := List.mem_flatMap.mp hwrite
      exact FieldEffect.isReserved_of_mem_writes hwrite
    rw [stripInPlace, FieldEffect.visit_mapping, strip]
    dsimp only
    rw [copy, copyFields_setAll_eq h.1 h.2 hwrites, List.append_assoc]
    rfl
  | .list items =>
    rw [stripInPlace, FieldEffect.visit_of_not_isMapping name rfl, strip]
    dsimp only
    rw [copy, copyItems_eq_stripItems 0 h]
  | .null | .boolean _ | .integer _ | .float _ | .string _ =>
    exact stripInPlace_of_height effects rfl name

theorem copyItems_eq_stripItems (index : Nat) {items : List Fragment} (h : KeyedItems items) :
  copyItems effects index items = stripItems effects index items
  := by
  match items with
  | [] => rw [copyItems, stripItems]
  | item :: rest =>
    rw [copyItems, stripItems, stripInPlace_eq_strip _ h.1, copyItems_eq_stripItems (index + 1) h.2]

/-- Copying the fields that effects have set keeps those that were there, what is written in them
included, and then those that have been added. -/
theorem copyFields_setAll_eq {fields : Fields} (hkeys : (Table.keys fields).Nodup)
    (h : KeyedFields fields) {writes : List (String × String)}
    (hwrites : ∀ write ∈ writes, isReserved write.1 = false) :
  copyFields effects (Table.setAll fields (FieldEffect.asFields writes))
    = ⟨(stripFields effects (Table.ofEntries writes) fields).value
          ++ (addWrites effects fields (Table.ofEntries writes)).value,
        (stripFields effects (Table.ofEntries writes) fields).visited
          ++ (addWrites effects fields (Table.ofEntries writes)).visited⟩
  := by
  match fields with
  | [] =>
    have hall : ∀ write ∈ Table.ofEntries writes, isReserved write.1 = false := by
      intro write hwrite
      rcases Table.mem_setAll hwrite with hwrite | hwrite
      · cases hwrite
      · exact hwrites write hwrite
    have hset : Table.setAll [] (FieldEffect.asFields writes)
        = FieldEffect.asFields (Table.ofEntries writes) :=
      Table.setAll_map_snd Fragment.string [] writes
    rw [hset, copyFields_asFields effects hall, stripFields, addWrites_nil]
    rfl
  | (field, value) :: rest =>
    obtain ⟨hfresh, hrest⟩ : field ∉ Table.keys rest ∧ (Table.keys rest).Nodup := by
      simpa [Table.keys] using hkeys
    have hwrites' : ∀ write ∈ writes.filter (·.1 != field), isReserved write.1 = false :=
      fun write hwrite => hwrites write (List.mem_filter.mp hwrite).1
    have hothers := copyFields_setAll_eq hrest h.2 hwrites'
    have hfilter : Table.ofEntries (writes.filter (·.1 != field))
        = (Table.ofEntries writes).filter (·.1 != field) :=
      (Table.filter_setAll field [] writes).symm
    have hfields : (FieldEffect.asFields writes).filter (·.1 != field)
        = FieldEffect.asFields (writes.filter (·.1 != field)) := List.filter_map
    rw [hfilter, stripFields_filter hfresh, ← addWrites_cons field value] at hothers
    rw [Table.setAll_cons, hfields, lookup_asFields, copyFields, hothers, stripFields]
    cases isReserved field with
    | true => rfl
    | false =>
      cases (Table.ofEntries writes).lookup field with
      | some written =>
        have hwritten : stripInPlace effects field (.string written)
            = ⟨.string written, FieldEffect.notes effects field⟩ :=
          stripInPlace_of_height effects rfl field
        simp [hwritten]
      | none => simp [stripInPlace_eq_strip field h.1]

end

end

/-! ### What effects see and leave in place -/

section

variable {fragment : Fragment} (h : fragment.Keyed)

include h

/-- Effects that take notes and effects that mark mappings see exactly what is kept where they act
in place: nothing reserved is kept, each note-taker has noted the names of what is, in their
order, and only the names of marked mappings are added. -/
theorem stripInPlace_seen {effects : List FieldEffect}
    (heffects : ∀ effect ∈ effects, effect = .record ∨ effect = .mark) :
  (stripInPlace effects "" fragment).value.Unreserved
    ∧ (stripInPlace effects "" fragment).visited
      = (names "" (stripInPlace effects "" fragment).value).flatMap
          (fun name => List.replicate (effects.count .record) name)
    ∧ (stripInPlace effects "" fragment).value = fragment.kept (effects.contains .mark) ""
  := by
  rw [stripInPlace_eq_strip effects "" h]
  exact ⟨strip_unreserved effects "" fragment, visited_strip_eq_replicate effects "" fragment,
    strip_eq_kept heffects "" h⟩

/-- The script's own entity is bound in place wherever it stands. -/
theorem stripInPlace_bind (table : SideTable) (name : String) :
  (stripInPlace [.bind table] name fragment).value = fragment.bound table
  := by
  rw [stripInPlace_eq_strip [.bind table] name h]
  exact strip_eq_bound table name h

end

end Fragment

end TriggerLang
