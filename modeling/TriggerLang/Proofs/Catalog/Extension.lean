import TriggerLang.Fragment.Equality
import TriggerLang.Proofs.Catalog.Agreement
import TriggerLang.Proofs.Grammar.Completeness

/-!
# Extending a catalog

A catalog can be laid over another one whose functions it does not replace.  A line that was
accepted before is then read as the same fragment, checked alike and rendered as the same text:
a derivation asks the catalog about names of its functions, declared variables and reserved
functions only, and about these the extended catalog says what it said before.

There is one way in which a line calls a function that the catalog does not list: an argument
for a parameter whose field is `function` takes the place of the name that is called.  A string
literal in such a line must not name a function of the extension.
-/

namespace TriggerLang

/-! ### Extended scopes -/

/-- The scope with its catalog extended. -/
def Parse.Scope.extend (scope : Parse.Scope) (extension : Catalog) : Parse.Scope :=
  { scope with catalog := scope.catalog.merge extension }

/-- No function of the extension is one of the scope, a declared variable, or reserved. -/
structure Catalog.NewBeside (extension : Catalog) (scope : Parse.Scope) : Prop where
  function : ∀ key ∈ Table.keys extension.functions, scope.catalog.get? key = none
  declared : ∀ key ∈ Table.keys extension.functions, scope.declarations.variableType? key = none
  reserved : ∀ key ∈ Table.keys extension.functions,
    key ∉ [calculateFunction, variableFunction, thisEntityFunction]

namespace Catalog

variable {extension : Catalog} {scope : Parse.Scope}

/-- An extension says nothing about other functions than its own. -/
theorem agreesOn_merge (catalog : Catalog) {key : String}
    (h : key ∉ Table.keys extension.functions) :
  catalog.AgreesOn (catalog.merge extension) key
  := by
  have habsent : extension.functions.reverse.lookup key = none := by
    apply Table.lookup_eq_none_of_notMem
    rwa [Table.keys, List.map_reverse, List.mem_reverse]
  rw [AgreesOn, get?, get?, merge, Table.lookup_setAll, habsent, Option.none_or]

namespace NewBeside

theorem of_get? (h : extension.NewBeside scope) {name : String} {signature : Signature}
    (hfunction : scope.catalog.get? name = some signature) :
  name ∉ Table.keys extension.functions
  := by
  intro hname
  rw [h.function name hname] at hfunction
  cases hfunction

theorem of_variableType? (h : extension.NewBeside scope) {name dataType : String}
    (htype : scope.declarations.variableType? name = some dataType) :
  name ∉ Table.keys extension.functions
  := by
  intro hname
  rw [h.declared name hname] at htype
  cases htype

theorem of_reserved (h : extension.NewBeside scope) {name : String}
    (hreserved : name ∈ [calculateFunction, variableFunction, thisEntityFunction]) :
  name ∉ Table.keys extension.functions
  := fun hname => h.reserved name hname hreserved

end NewBeside

theorem mem_addNames {names more : List String} {name : String} (h : name ∈ names) :
  name ∈ addNames names more
  := by
  induction more generalizing names with
  | nil => exact h
  | cons first rest ih =>
    apply ih
    dsimp only
    split
    · exact h
    · exact List.mem_append_left _ h

end Catalog

/-- A trigger stays known, unless all were known because none is listed. -/
theorem Parse.Scope.knowsTrigger_extend {scope : Parse.Scope} {name : String}
    (h : scope.knowsTrigger name = true)
    (hlisted : scope.catalog.triggers ≠ [] ∨ scope.declarations.allowUnknownTriggers = true)
    (extension : Catalog) :
  (scope.extend extension).knowsTrigger name = true
  := by
  rw [Parse.Scope.knowsTrigger, Bool.or_eq_true, Bool.or_eq_true, List.isEmpty_iff] at h ⊢
  rcases h with (hempty | hcontains) | hany
  · exact .inr (hlisted.resolve_left (not_not_intro hempty))
  · left; right
    rw [List.contains_iff_mem] at hcontains ⊢
    exact Catalog.mem_addNames hcontains
  · exact .inr hany

/-! ### Names that arguments overwrite -/

namespace Fragment

variable {p : String → Prop}

theorem labelled_eq_string {f : Fragment} {label : Option String} {s : String}
    (h : f.labelled label = .string s) :
  f = .string s
  := by
  cases label with
  | none => exact h
  | some dataType =>
    rw [labelled] at h
    split at h
    · cases f with
      | mapping fields => cases h
      | _ => exact h
    · exact h

namespace CallsOnly

/-- Setting another field than that of the called function adds no call of its own. -/
theorem setField {f : Fragment} (h : f.CallsOnly p) {field : String} (hfield : field ≠ "function")
    {value : Fragment} (hvalue : value.CallsOnly p) :
  (f.setField field value).CallsOnly p
  := by
  cases f with
  | mapping fields =>
    refine ⟨fun name hname => ?_, callsOnlyInFields_iff.mpr fun entry hentry => ?_⟩
    · rw [Table.lookup_set_of_ne hfield.symm] at hname
      exact h.1 name hname
    · rcases Table.mem_set hentry with rfl | hentry
      · exact hvalue
      · exact callsOnlyInFields_iff.mp h.2 entry hentry
  | _ => exact h

theorem labelled {f : Fragment} (h : f.CallsOnly p) (label : Option String) :
  (f.labelled label).CallsOnly p
  := by
  cases label with
  | none => exact h
  | some dataType =>
    rw [Fragment.labelled]
    split
    · exact h.setField (by decide) trivial
    · exact h

theorem calculation (op : Operator) {left right : Fragment} (hcalculate : p calculateFunction)
    (hleft : left.CallsOnly p) (hright : right.CallsOnly p) :
  (op.calculation left right).CallsOnly p
  := by
  have hheader : (mapping [("operator", .string op.name)]).CallsOnly p := by
    refine ⟨?_, trivial, trivial⟩
    rintro name ⟨⟩
  refine ⟨?_, trivial, ⟨hheader, hleft, hright, trivial⟩, trivial⟩
  rintro name ⟨⟩
  exact hcalculate

theorem apply (catalog : Catalog) (op : Operator) {left right : Fragment}
    (hcalculate : p calculateFunction) (hleft : left.CallsOnly p) (hright : right.CallsOnly p) :
  (op.apply catalog left right).CallsOnly p
  := by
  obtain ⟨operandType, heq⟩ | heq := op.apply_eq_or catalog left right
  · have hheader : (op.header operandType).CallsOnly p := by
      refine ⟨?_, trivial, trivial, trivial⟩
      rintro name ⟨⟩
    rw [heq]
    exact ⟨hheader, hleft, hright, trivial⟩
  · rw [heq]
    exact calculation op hcalculate hleft hright

theorem negate {f : Fragment} (hcalculate : p calculateFunction) (h : f.CallsOnly p) :
  (negate f).CallsOnly p
  := by
  cases f with
  | integer n => trivial
  | float x => trivial
  | _ => exact calculation .multiply hcalculate trivial h

end CallsOnly

end Fragment

namespace Grammar

open Fragment (CallsOnly)

/-! ### Calls -/

/-- A call names its function, unless an argument takes the place of the name. -/
theorem callsOnly_callOf {p : String → Prop} {signature : Signature} {fs : List Fragment}
    (hkey : p signature.key) (hfs : ∀ f ∈ fs, f.CallsOnly p)
    (hfield : (∃ q ∈ signature.parameters, q.field = "function") →
      ∀ s, .string s ∈ fs → p s) :
  (callOf signature fs).CallsOnly p
  := by
  rw [callOf, fieldsOf_eq]
  constructor
  · intro name hname
    rcases Table.mem_setAll (Table.mem_of_lookup hname) with hentry | hentry
    · obtain ⟨-, heq⟩ := Prod.mk.inj (List.mem_singleton.mp hentry)
      cases heq
      exact hkey
    · obtain ⟨argument, hargument, heq⟩ := List.mem_map.mp hentry
      obtain ⟨hparameter, hf⟩ := List.of_mem_zip hargument
      obtain ⟨hname', hvalue⟩ := Prod.mk.inj heq
      rw [Fragment.labelled_eq_string hvalue] at hf
      exact hfield ⟨_, hparameter, hname'⟩ name hf
  · refine Fragment.callsOnlyInFields_iff.mpr fun entry hentry => ?_
    rcases Table.mem_setAll hentry with hentry | hentry
    · obtain rfl := List.mem_singleton.mp hentry
      trivial
    · obtain ⟨argument, hargument, rfl⟩ := List.mem_map.mp hentry
      exact (hfs argument.2 (List.of_mem_zip hargument).2).labelled (some argument.1.dataType)

variable {scope : Parse.Scope} {extension : Catalog}

/-- A string is written as a literal. -/
theorem Derives.exists_literal {phrase : Phrase} {ts : List Terminal}
    (h : Derives scope phrase ts) :
  phrase.All fun f => ∀ s, f = .string s →
    ∃ t ∈ ts, t.kind = .string ∧ String.ofList (unquote t.text) = s
  := by
  induction h with
  | loosen _ _ ih => exact ih
  | @binary op left right =>
    rintro s hs
    obtain ⟨operandType, heq⟩ | heq := op.apply_eq_or scope.catalog left right
    · rw [heq] at hs
      cases hs
    · rw [heq] at hs
      cases hs
  | @negative f =>
    rintro s hs
    cases f <;> cases hs
  | @string t hkind =>
    rintro s ⟨⟩
    exact ⟨t, List.mem_singleton_self t, hkind, rfl⟩
  | group _ _ _ ih =>
    rintro s hs
    obtain ⟨t, ht, hliteral⟩ := ih s hs
    exact ⟨t, by simp [ht], hliteral⟩
  | first _ ih =>
    intro f hf
    rw [List.mem_singleton.mp hf]
    exact ih
  | further _ _ _ ihs ih =>
    intro f hf s hs
    rcases List.mem_append.mp hf with hf | hf
    · obtain ⟨t, ht, hliteral⟩ := ihs f hf s hs
      exact ⟨t, by simp [ht], hliteral⟩
    · obtain ⟨t, ht, hliteral⟩ := ih s (List.mem_singleton.mp hf ▸ hs)
      exact ⟨t, by simp [ht], hliteral⟩
  | _ => rintro s ⟨⟩

/-- No argument takes the place of a function by the name of one of the extension: where a
function is named that has a parameter for the field `function`, no string literal names a
function of the extension. -/
def SparesNames (scope : Parse.Scope) (extension : Catalog) (ts : List Terminal) : Prop :=
  ∀ t ∈ ts, t.kind = .identifier →
    ∀ signature, scope.catalog.get? t.word = some signature →
      (∃ p ∈ signature.parameters, p.field = "function") →
        ∀ u ∈ ts, u.kind = .string →
          String.ofList (unquote u.text) ∉ Table.keys extension.functions

theorem SparesNames.mono {ts us : List Terminal} (h : SparesNames scope extension us)
    (hsub : ts ⊆ us) :
  SparesNames scope extension ts
  := fun t ht hkind signature hfunction hfield u hu =>
    h t (hsub ht) hkind signature hfunction hfield u (hsub hu)

/-- What is derived calls functions only about which the extended catalog says the same. -/
theorem Derives.callsOnly {phrase : Phrase} {ts : List Terminal}
    (h : Derives scope phrase ts) (hnew : extension.NewBeside scope)
    (hspares : SparesNames scope extension ts) :
  phrase.All (·.CallsOnly (scope.catalog.AgreesOn (scope.catalog.merge extension)))
  := by
  have hcalculate : scope.catalog.AgreesOn (scope.catalog.merge extension) calculateFunction :=
    Catalog.agreesOn_merge _ (hnew.of_reserved (by simp))
  induction h with
  | loosen _ _ ih => exact ih hspares
  | binary _ _ _ ihleft ihright =>
    exact .apply _ _ hcalculate (ihleft (hspares.mono (by simp)))
      (ihright (hspares.mono (by simp)))
  | negative _ _ ih => exact .negate hcalculate (ih (hspares.mono (by simp)))
  | group _ _ _ ih => exact ih (hspares.mono (by simp))
  | @call signature fs ts name _ _ hname _ hfunction _ _ _ harguments ih =>
    apply callsOnly_callOf
    · rw [Catalog.key_of_get? hfunction]
      exact Catalog.agreesOn_merge _ (hnew.of_get? hfunction)
    · exact ih (hspares.mono fun t ht => by simp [ht])
    · intro hfield s hs
      obtain ⟨t, ht, hkind, rfl⟩ := harguments.exists_literal _ hs s rfl
      exact Catalog.agreesOn_merge _
        (hspares name (by simp) hname signature hfunction hfield t (by simp [ht]) hkind)
  | emptyCall _ _ hfunction | constant _ _ hfunction =>
    apply callsOnly_callOf
    · rw [Catalog.key_of_get? hfunction]
      exact Catalog.agreesOn_merge _ (hnew.of_get? hfunction)
    · simp
    · simp
  | declared =>
    refine ⟨?_, trivial, trivial, trivial, trivial⟩
    rintro name ⟨⟩
    exact Catalog.agreesOn_merge _ (hnew.of_reserved (by simp))
  | first _ ih =>
    intro f hf
    rw [List.mem_singleton.mp hf]
    exact ih hspares
  | further _ _ _ ihs ih =>
    intro f hf
    rcases List.mem_append.mp hf with hf | hf
    · exact ihs (hspares.mono (by simp)) f hf
    · rw [List.mem_singleton.mp hf]
      exact ih (hspares.mono (by simp))
  | integer | float | string | trueWord | falseWord => trivial

/-- An operator makes the same of operands about which the catalogs agree. -/
theorem apply_congr {catalog other : Catalog} {left : Fragment} (op : Operator)
    (h : left.CallsOnly (catalog.AgreesOn other)) (right : Fragment) :
  op.apply catalog left right = op.apply other left right
  := by
  rw [Operator.apply, Operator.apply, inferType_congr h]

/-- What is derived is derived with the extended catalog. -/
theorem Derives.extend {phrase : Phrase} {ts : List Terminal}
    (h : Derives scope phrase ts) (hnew : extension.NewBeside scope)
    (hspares : SparesNames scope extension ts) :
  Derives (scope.extend extension) phrase ts
  := by
  have hkeep : ∀ {name : String} {signature : Signature},
      scope.catalog.get? name = some signature →
      (scope.extend extension).catalog.get? name = some signature := by
    intro name signature hfunction
    exact (Catalog.agreesOn_merge _ (hnew.of_get? hfunction)).symm.trans hfunction
  induction h with
  | loosen h _ ih => exact .loosen h (ih hspares)
  | binary hop hleft _ ihleft ihright =>
    rw [apply_congr _ (hleft.callsOnly hnew (hspares.mono (by simp)))]
    exact .binary hop (ihleft (hspares.mono (by simp))) (ihright (hspares.mono (by simp)))
  | negative hminus _ ih => exact .negative hminus (ih (hspares.mono (by simp)))
  | integer hkind => exact .integer hkind
  | float hkind => exact .float hkind
  | string hkind hclosed => exact .string hkind hclosed
  | trueWord hkind hword => exact .trueWord hkind hword
  | falseWord hkind hword => exact .falseWord hkind hword
  | group hopen hclose _ ih => exact .group hopen hclose (ih (hspares.mono (by simp)))
  | call hname hword hfunction harity hopen hclose _ ih =>
    exact .call hname hword (hkeep hfunction) harity hopen hclose
      (ih (hspares.mono fun t ht => by simp [ht]))
  | emptyCall hname hword hfunction harity hopen hclose =>
    exact .emptyCall hname hword (hkeep hfunction) harity hopen hclose
  | constant hname hword hfunction harity =>
    exact .constant hname hword (hkeep hfunction) harity
  | declared hname hword hfunction htype =>
    have hsame := Catalog.agreesOn_merge scope.catalog (hnew.of_variableType? htype)
    exact .declared hname hword (hsame.symm.trans hfunction) htype
  | first _ ih => exact .first (ih hspares)
  | further hcomma _ _ ihs ih =>
    exact .further hcomma (ihs (hspares.mono (by simp))) (ih (hspares.mono (by simp)))

end Grammar

/-! ### Lines -/

open Grammar (SparesNames)

variable {scope : Parse.Scope} {extension : Catalog} {source : List Char} {f : Fragment}

/-- The extension of the catalog does not matter to a text that stands for a fragment: it is
read as the same fragment, and that is checked alike and rendered as the same text. -/
structure Unaffected (scope : Parse.Scope) (extension : Catalog) (source : List Char)
    (f : Fragment) : Prop where
  parsed : parseLine (scope.extend extension) source = .ok f
  checked : ∀ text expected,
    checkType (scope.extend extension).catalog text f expected
      = checkType scope.catalog text f expected
  rendered : ∀ bareWords,
    Renderer.render ⟨(scope.extend extension).catalog, bareWords⟩ f
      = Renderer.render ⟨scope.catalog, bareWords⟩ f

theorem Unaffected.of_callsOnly (hparsed : parseLine (scope.extend extension) source = .ok f)
    (h : f.CallsOnly (scope.catalog.AgreesOn (scope.catalog.merge extension))) :
  Unaffected scope extension source f
  := ⟨hparsed, fun text expected => (checkType_congr h text expected).symm,
    fun bareWords => (Renderer.render_congr bareWords h).symm⟩

/-- Extending a catalog by new functions does not matter to an accepted text, unless it is a
trigger and no trigger was listed. -/
theorem unaffected_of_parseLine (hnew : extension.NewBeside scope)
    (htrigger : ∀ t ∈ (significantTokens source).head?, t.kind = .symbol .at →
      scope.catalog.triggers ≠ [] ∨ scope.declarations.allowUnknownTriggers = true)
    (hspares : SparesNames scope extension ((significantTokens source).map Token.terminal))
    (h : parseLine scope source = .ok f) :
  Unaffected scope extension source f
  := by
  have hline := Grammar.derivesLine_of_parseLine h
  generalize hts : (significantTokens source).map Token.terminal = ts at hline hspares
  cases hline with
  | @trigger sign name hsign hname hknown =>
    obtain ⟨first, rest, htokens, rfl, -⟩ := List.map_eq_cons_iff.mp hts
    apply Unaffected.of_callsOnly
    · apply Grammar.parseLine_of_derivesLine
      rw [hts]
      refine .trigger hsign hname (Parse.Scope.knowsTrigger_extend hknown ?_ extension)
      exact htrigger first (by simp [htokens]) hsign
    · refine ⟨?_, trivial, trivial⟩
      rintro name ⟨⟩
  | expression hderives =>
    apply Unaffected.of_callsOnly
    · apply Grammar.parseLine_of_derivesLine
      rw [hts]
      exact .expression (hderives.extend hnew hspares)
    · exact hderives.callsOnly hnew hspares

/-- A catalog with a function whose argument takes the place of the function. -/
def picking : Catalog where
  functions := [("pick", ⟨"pick", [⟨"function", anyType⟩], anyType, "", ""⟩)]
  triggers := []
  keyed := by simp

/-- A catalog with a function that makes a number. -/
def spawning : Catalog where
  functions := [("spawn", ⟨"spawn", [], numberType, "", ""⟩)]
  triggers := []
  keyed := by simp

theorem spawning_newBeside :
  spawning.NewBeside ⟨picking, {}⟩
  := ⟨by decide, by decide, by decide⟩

/-- The comparison of what a function of no catalog makes. -/
def pickedWalk : Fragment :=
  .list [Operator.equal.header anyType, .call "walk", .integer 1]

/-- A function of no catalog remains one if the extension does not have it either. -/
theorem unaffected_of_parseLine_pickedWalk :
  parseLine ⟨picking, {}⟩ "pick(\"walk\") == 1".toList = .ok pickedWalk
    ∧ Unaffected ⟨picking, {}⟩ spawning "pick(\"walk\") == 1".toList pickedWalk
  := by
  have hparse : parseLine ⟨picking, {}⟩ "pick(\"walk\") == 1".toList = .ok pickedWalk := by
    decide +kernel
  have hliterals : ∀ u ∈ (significantTokens "pick(\"walk\") == 1".toList).map Token.terminal,
      u.kind = .string → String.ofList (unquote u.text) ∉ Table.keys spawning.functions := by
    decide +kernel
  exact ⟨hparse, unaffected_of_parseLine spawning_newBeside (by decide +kernel)
    (fun _ _ _ _ _ _ => hliterals) hparse⟩

/-- The comparison of what a function makes that only the extension has. -/
def pickedSpawn : Fragment :=
  .list [Operator.equal.header anyType, .call "spawn", .integer 1]

/-- An argument that takes the place of a function may name one of the extension, whose type
then labels a comparison. -/
theorem not_unaffected_pickedSpawn :
  spawning.NewBeside ⟨picking, {}⟩
    ∧ (∀ t ∈ (significantTokens "pick(\"spawn\") == 1".toList).head?, t.kind ≠ .symbol .at)
    ∧ parseLine ⟨picking, {}⟩ "pick(\"spawn\") == 1".toList = .ok pickedSpawn
    ∧ ¬ Unaffected ⟨picking, {}⟩ spawning "pick(\"spawn\") == 1".toList pickedSpawn
  := by
  refine ⟨spawning_newBeside, by decide +kernel, by decide +kernel, ?_⟩
  intro h
  have hextended : parseLine (Parse.Scope.extend ⟨picking, {}⟩ spawning)
      "pick(\"spawn\") == 1".toList
      = .ok (.list [Operator.equal.header numberType, .call "spawn", .integer 1]) := by
    decide +kernel
  exact absurd (h.parsed.symm.trans hextended) (by decide)

end TriggerLang
