/-!
# Tables

A table is a list of keys with their values, in the order in which the keys were first
set.  Setting a key that is present replaces its value in place, and setting another key
appends it, so a table built by setting keys holds no key twice.
-/

namespace TriggerLang.Table

variable {α : Type}

/-- The table with `value` under `key`. -/
def set (key : String) (value : α) : List (String × α) → List (String × α)
  | [] => [(key, value)]
  | (k, v) :: rest => if k = key then (key, value) :: rest else (k, v) :: set key value rest

/-- The table with all entries of `entries` set, the first one first. -/
def setAll (table entries : List (String × α)) : List (String × α) :=
  entries.foldl (fun table entry => set entry.1 entry.2 table) table

/-- The table of a list of entries, of which a later one replaces an earlier one. -/
def ofEntries (entries : List (String × α)) : List (String × α) :=
  setAll [] entries

@[simp]
theorem lookup_set_self (key : String) (value : α) (table : List (String × α)) :
  (set key value table).lookup key = some value
  := by
  induction table with
  | nil => simp [set]
  | cons entry rest ih =>
    obtain ⟨k, v⟩ := entry
    by_cases h : k = key
    · simp [set, h]
    · have hk : (key == k) = false := by simp [Ne.symm h]
      simp [set, h, List.lookup_cons, hk, ih]

theorem lookup_set_of_ne
    {key other : String} (h : other ≠ key) (value : α) (table : List (String × α)) :
  (set key value table).lookup other = table.lookup other
  := by
  have hother : (other == key) = false := by simp [h]
  induction table with
  | nil => simp [set, List.lookup_cons, hother]
  | cons entry rest ih =>
    obtain ⟨k, v⟩ := entry
    by_cases hk : k = key
    · simp [set, hk, List.lookup_cons, hother]
    · simp [set, hk, List.lookup_cons, ih]

/-- An entry of a table after setting a key is the one that was set or was there before. -/
theorem mem_set {key : String} {value : α} {table : List (String × α)} {entry : String × α}
    (h : entry ∈ set key value table) :
  entry = (key, value) ∨ entry ∈ table
  := by
  induction table with
  | nil => simpa [set] using h
  | cons first rest ih =>
    obtain ⟨k, v⟩ := first
    rw [set] at h
    split at h
    · rcases List.mem_cons.mp h with h | h
      · exact .inl h
      · exact .inr (List.mem_cons_of_mem _ h)
    · rcases List.mem_cons.mp h with h | h
      · exact .inr (h ▸ List.mem_cons_self)
      · exact (ih h).imp_right (List.mem_cons_of_mem _)

/-- An entry of a table after setting entries is one of them or was there before. -/
theorem mem_setAll {table entries : List (String × α)} {entry : String × α}
    (h : entry ∈ setAll table entries) :
  entry ∈ table ∨ entry ∈ entries
  := by
  induction entries generalizing table with
  | nil => exact .inl h
  | cons first rest ih =>
    rcases ih h with h | h
    · rcases mem_set h with h | h
      · exact .inr (h ▸ List.mem_cons_self)
      · exact .inl h
    · exact .inr (List.mem_cons_of_mem _ h)

theorem mem_of_lookup {key : String} {value : α} {table : List (String × α)}
    (h : table.lookup key = some value) :
  (key, value) ∈ table
  := by
  obtain ⟨before, after, rfl, -⟩ := List.lookup_eq_some_iff.mp h
  simp

/-- Setting a key only matters to the entries of that key. -/
theorem filter_set (key : String) (value : α) (table : List (String × α)) :
  (set key value table).filter (·.1 != key) = table.filter (·.1 != key)
  := by
  induction table with
  | nil => simp [set]
  | cons entry rest ih =>
    obtain ⟨k, v⟩ := entry
    rw [set]
    split
    · simp_all
    · simp_all

theorem filter_set_of_ne
    {key other : String} (h : other ≠ key) (value : α) (table : List (String × α)) :
  (set other value table).filter (·.1 != key) = set other value (table.filter (·.1 != key))
  := by
  induction table with
  | nil => simp [set, h]
  | cons entry rest ih =>
    obtain ⟨k, v⟩ := entry
    by_cases hk : k = other
    · subst hk
      simp [set, h]
    · by_cases hkey : k = key
      · subst hkey
        simp [set, hk, ih]
      · simp [set, hk, hkey, ih]

/-- Without the entries of a key, a table is built from the other entries. -/
theorem filter_setAll (key : String) (table entries : List (String × α)) :
  (setAll table entries).filter (·.1 != key)
    = setAll (table.filter (·.1 != key)) (entries.filter (·.1 != key))
  := by
  induction entries generalizing table with
  | nil => rfl
  | cons entry rest ih =>
    obtain ⟨k, v⟩ := entry
    change (setAll (set k v table) rest).filter _ = _
    rw [ih]
    by_cases hk : k = key
    · subst hk
      rw [filter_set, List.filter_cons_of_neg (by simp)]
    · rw [filter_set_of_ne hk, List.filter_cons_of_pos (by simpa using hk)]
      rfl

/-- The keys of a table, in order. -/
def keys (table : List (String × α)) : List String :=
  table.map Prod.fst

theorem keys_set (key : String) (value : α) (table : List (String × α)) :
  keys (set key value table) = if key ∈ keys table then keys table else keys table ++ [key]
  := by
  induction table with
  | nil => rfl
  | cons entry rest ih =>
    obtain ⟨k, v⟩ := entry
    by_cases hk : k = key
    · simp [set, keys, hk]
    · simp only [keys] at ih
      by_cases hmem : key ∈ rest.map Prod.fst <;>
        simp [set, keys, hk, Ne.symm hk, ih, hmem]

/-- A new key is appended. -/
theorem set_of_notMem {key : String} {table : List (String × α)} (h : key ∉ keys table)
    (value : α) :
  set key value table = table ++ [(key, value)]
  := by
  induction table with
  | nil => rfl
  | cons entry rest ih =>
    obtain ⟨k, v⟩ := entry
    have hne : k ≠ key := fun hk => h (hk ▸ List.mem_cons_self)
    rw [set, if_neg hne, ih fun hmem => h (List.mem_cons_of_mem _ hmem)]
    rfl

/-- The keys of a table depend on the keys that are set only. -/
theorem keys_setAll {table other entries others : List (String × α)}
    (htable : keys table = keys other) (hentries : keys entries = keys others) :
  keys (setAll table entries) = keys (setAll other others)
  := by
  induction entries generalizing table other others with
  | nil =>
    obtain rfl := List.map_eq_nil_iff.mp hentries.symm
    exact htable
  | cons entry rest ih =>
    obtain ⟨entry', rest', rfl, hentry, hrest⟩ := List.map_eq_cons_iff.mp hentries.symm
    apply ih _ hrest.symm
    rw [keys_set, keys_set, htable, hentry]

/-- Setting a key in a table leaves no key twice. -/
theorem nodup_keys_set {table : List (String × α)} (h : (keys table).Nodup) (key : String)
    (value : α) :
  (keys (set key value table)).Nodup
  := by
  rw [keys_set]
  split
  · exact h
  · rename_i hkey
    rw [List.nodup_append]
    refine ⟨h, by simp, ?_⟩
    rintro a ha b hb rfl
    rw [List.mem_singleton.mp hb] at ha
    exact hkey ha

theorem nodup_keys_setAll {table : List (String × α)} (h : (keys table).Nodup)
    (entries : List (String × α)) :
  (keys (setAll table entries)).Nodup
  := by
  induction entries generalizing table with
  | nil => exact h
  | cons entry rest ih => exact ih (nodup_keys_set h _ _)

/-- Setting new keys one by one appends their entries. -/
theorem setAll_of_nodup {table entries : List (String × α)}
    (h : (keys table ++ keys entries).Nodup) :
  setAll table entries = table ++ entries
  := by
  induction entries generalizing table with
  | nil => exact (List.append_nil table).symm
  | cons entry rest ih =>
    obtain ⟨k, v⟩ := entry
    have hfresh : k ∉ keys table := by
      intro hmem
      exact (List.nodup_append.mp h).2.2 _ hmem _ List.mem_cons_self rfl
    change setAll (set k v table) rest = _
    rw [set_of_notMem hfresh, ih]
    · simp
    · simpa [keys] using h

theorem ofEntries_of_nodup {entries : List (String × α)} (h : (keys entries).Nodup) :
  ofEntries entries = entries
  := setAll_of_nodup h

/-- The last entry of a key counts. -/
theorem lookup_setAll (key : String) (table entries : List (String × α)) :
  (setAll table entries).lookup key = (entries.reverse.lookup key).or (table.lookup key)
  := by
  induction entries generalizing table with
  | nil => rfl
  | cons entry rest ih =>
    obtain ⟨k, v⟩ := entry
    have hset : (set k v table).lookup key = ([(k, v)].lookup key).or (table.lookup key) := by
      by_cases hk : key = k
      · rw [hk, lookup_set_self, List.lookup_cons_self]
        rfl
      · rw [lookup_set_of_ne hk, List.lookup_cons, beq_eq_false_iff_ne.mpr hk]
        rfl
    change (setAll (set k v table) rest).lookup key = _
    rw [ih, hset, List.reverse_cons, List.lookup_append, Option.or_assoc]

theorem lookup_eq_none_of_notMem {key : String} {table : List (String × α)}
    (h : key ∉ keys table) :
  table.lookup key = none
  := by
  rw [List.lookup_eq_none_iff]
  intro entry hentry
  rw [bne_iff_ne]
  rintro rfl
  exact h (List.mem_map_of_mem hentry)

/-- A key is looked for in vain exactly if it is none of the table. -/
theorem lookup_eq_none_iff {key : String} {table : List (String × α)} :
  table.lookup key = none ↔ key ∉ keys table
  := by
  constructor
  · intro h hmem
    obtain ⟨entry, hentry, rfl⟩ := List.mem_map.mp hmem
    exact bne_iff_ne.mp (List.lookup_eq_none_iff.mp h entry hentry) rfl
  · exact lookup_eq_none_of_notMem

theorem isNone_lookup (key : String) (table : List (String × α)) :
  (table.lookup key).isNone = decide (key ∉ keys table)
  := by
  rw [Bool.eq_iff_iff, Option.isNone_iff_eq_none, lookup_eq_none_iff, decide_eq_true_iff]

/-- Tables with the same keys, none of them twice, are equal if they hold the same values. -/
theorem ext {table other : List (String × α)} (hkeys : keys table = keys other)
    (hnodup : (keys table).Nodup) (h : ∀ key, table.lookup key = other.lookup key) :
  table = other
  := by
  induction table generalizing other with
  | nil => exact (List.map_eq_nil_iff.mp hkeys.symm).symm
  | cons entry rest ih =>
    obtain ⟨k, v⟩ := entry
    obtain ⟨⟨k', v'⟩, rest', rfl, rfl, hrest⟩ := List.map_eq_cons_iff.mp hkeys.symm
    have hvalue : v = v' := by simpa using h k'
    have hfresh : k' ∉ keys rest := (List.nodup_cons.mp hnodup).1
    rw [hvalue, ih hrest.symm (List.nodup_cons.mp hnodup).2]
    intro key
    by_cases hkey : key = k'
    · have hrest' : keys rest' = keys rest := hrest
      rw [hkey, lookup_eq_none_of_notMem hfresh, lookup_eq_none_of_notMem (hrest'.symm ▸ hfresh)]
    · have hlookup := h key
      rwa [List.lookup_cons, List.lookup_cons, beq_eq_false_iff_ne.mpr hkey] at hlookup

/-- A table of listed elements is looked up by searching the list. -/
theorem lookup_map {β : Type} (key : β → String) (value : β → α) (xs : List β) (k : String) :
  (xs.map fun x => (key x, value x)).lookup k = (xs.find? fun x => key x == k).map value
  := by
  induction xs with
  | nil => rfl
  | cons x rest ih =>
    rw [List.map_cons, List.lookup_cons, List.find?_cons, ih, BEq.comm]
    cases key x == k <;> rfl

/-- Keeping some of the keys does not change what stands under them. -/
theorem lookup_filter (p : String → Bool) {key : String} (h : p key = true)
    (table : List (String × α)) :
  (table.filter fun entry => p entry.1).lookup key = table.lookup key
  := by
  induction table with
  | nil => rfl
  | cons entry rest ih =>
    obtain ⟨k, v⟩ := entry
    by_cases hk : key = k
    · simp [← hk, h]
    · rw [List.filter_cons, List.lookup_cons, beq_eq_false_iff_ne.mpr hk]
      split
      · rw [List.lookup_cons, beq_eq_false_iff_ne.mpr hk, ih]
      · exact ih

/-- Changing all values changes what stands under a key. -/
theorem lookup_map_snd {β : Type} (f : α → β) (table : List (String × α)) (key : String) :
  (table.map fun entry => (entry.1, f entry.2)).lookup key = (table.lookup key).map f
  := by
  induction table with
  | nil => rfl
  | cons entry rest ih =>
    obtain ⟨k, v⟩ := entry
    rw [List.map_cons, List.lookup_cons, List.lookup_cons, ih]
    cases key == k <;> rfl

end TriggerLang.Table
