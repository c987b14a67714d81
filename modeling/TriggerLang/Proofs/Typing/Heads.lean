import TriggerLang.Proofs.Lexing.Lossless
import TriggerLang.Proofs.Render.RoundTrip
import TriggerLang.Proofs.Script.Pointing
import TriggerLang.Proofs.Typing.WellTyped

/-!
# Heads of mismatched values

A mismatch is shown at the head of its value: the name of a variable or of the called function.
The head is read off the fields of the value and looked for in the text.  What a line is read
as has only heads that the line holds, so the head of a variable is always found, and that of a
call is, unless one of its arguments is stored where a variable has its name.  Such a call is
looked for under the text of that argument.
-/

namespace TriggerLang

open Fragment

variable {catalog : Catalog} {occurs : String → Prop}

/-! ### Heads that occur -/

/-- The field with the name of a variable. -/
def nameField : String := "variableName"

/-- The head of a variable and that of a call occur, and a call has a field that can be taken
for the name of a variable only if its function has a parameter with that field. -/
structure HasHead (catalog : Catalog) (occurs : String → Prop) (fragment : Fragment) : Prop where
  declared : fragment.functionName? = some variableFunction →
    ∃ name, fragment.get? nameField = some (.string name) ∧ occurs name
  called : ∀ function signature, fragment.functionName? = some function →
    catalog.get? function = some signature → occurs function
  named : ∀ function signature, fragment.functionName? = some function →
    catalog.get? function = some signature →
      ((fragment.get? nameField).isSome ↔ ∃ p ∈ signature.parameters, p.field = nameField)

namespace HasHead

theorem congr {f g : Fragment} (hfunction : g.functionName? = f.functionName?)
    (hname : g.get? nameField = f.get? nameField) (h : HasHead catalog occurs f) :
  HasHead catalog occurs g
  := by
  constructor
  · rw [hfunction, hname]
    exact h.declared
  · rw [hfunction]
    exact h.called
  · rw [hfunction, hname]
    exact h.named

/-- A fragment that calls no function of the catalog only has the head of a variable. -/
theorem of_not_called {f : Fragment}
    (h : ∀ function signature, f.functionName? = some function →
      catalog.get? function ≠ some signature)
    (hdeclared : f.functionName? = some variableFunction →
      ∃ name, f.get? nameField = some (.string name) ∧ occurs name) :
  HasHead catalog occurs f
  where
    declared := hdeclared
    called function signature hfunction hsignature :=
      absurd hsignature (h function signature hfunction)
    named function signature hfunction hsignature :=
      absurd hsignature (h function signature hfunction)

theorem of_functionName? {f : Fragment} (h : f.functionName? = none) :
  HasHead catalog occurs f
  := by
  apply of_not_called <;> simp [h]

/-- A calculation has no head. -/
theorem of_calculation (hcatalog : catalog.Writable) {f : Fragment}
    (h : f.functionName? = some calculateFunction) :
  HasHead catalog occurs f
  := by
  apply of_not_called
  · rintro function signature hfunction hsignature
    obtain rfl := Option.some.inj (h.symm.trans hfunction)
    exact hcatalog.ne_calculate hsignature rfl
  · intro hvariable
    exact absurd (Option.some.inj (h.symm.trans hvariable)) (by decide)

end HasHead

/-- The heads of the fragment and of what stands at its places, at any depth, occur. -/
inductive Headed (catalog : Catalog) (occurs : String → Prop) : Fragment → Prop
  | intro {fragment : Fragment} (head : HasHead catalog occurs fragment)
      (values : ∀ i demand value, Asks catalog fragment i demand value →
        Headed catalog occurs value) :
      Headed catalog occurs fragment

namespace Headed

theorem head {f : Fragment} (h : Headed catalog occurs f) :
  HasHead catalog occurs f
  := by
  cases h
  assumption

theorem value {f value : Fragment} (h : Headed catalog occurs f) {i : Nat} {demand : Demand}
    (hplace : Asks catalog f i demand value) :
  Headed catalog occurs value
  := by
  cases h with
  | intro _ values => exact values i demand value hplace

theorem primitive {f : Fragment} (h : f.isPrimitive = true) :
  Headed catalog occurs f
  := by
  constructor
  · apply HasHead.of_functionName?
    cases f <;> simp_all [isPrimitive, functionName?, get?]
  · rintro i demand value hplace
    cases hplace <;> cases h

theorem null :
  Headed catalog occurs .null
  := by
  constructor
  · exact HasHead.of_functionName? rfl
  · rintro i demand value ⟨⟩

theorem trigger (name : String) :
  Headed catalog occurs (.mapping [("type", .string name)])
  := by
  constructor
  · exact HasHead.of_functionName? rfl
  · intro i demand value hplace
    cases hplace with
    | calculation hname => cases hname
    | argument hname => cases hname

theorem condition {header left right : Fragment} (hleft : Headed catalog occurs left)
    (hright : Headed catalog occurs right) :
  Headed catalog occurs (.list [header, left, right])
  := by
  constructor
  · exact HasHead.of_functionName? rfl
  · intro i demand value hplace
    cases hplace with
    | condition hoperand =>
      rcases List.mem_pair.mp (List.mem_of_getElem? hoperand) with rfl | rfl
      · exact hleft
      · exact hright

variable (hcatalog : catalog.Writable)

include hcatalog

theorem calculation (op : Operator) {left right : Fragment} (hleft : Headed catalog occurs left)
    (hright : Headed catalog occurs right) :
  Headed catalog occurs (op.calculation left right)
  := by
  constructor
  · exact HasHead.of_calculation hcatalog rfl
  · intro i demand value hplace
    cases hplace with
    | calculation _ hitems hoperand =>
      obtain rfl := list.inj (Option.some.inj hitems.symm)
      rcases List.mem_pair.mp (List.mem_of_getElem? hoperand) with rfl | rfl
      · exact hleft
      · exact hright
    | argument hname hne => exact absurd (Option.some.inj hname).symm hne

theorem apply (op : Operator) {left right : Fragment} (hleft : Headed catalog occurs left)
    (hright : Headed catalog occurs right) :
  Headed catalog occurs (op.apply catalog left right)
  := by
  obtain ⟨operandType, heq⟩ | heq := op.apply_eq_or catalog left right
  · rw [heq]
    exact condition hleft hright
  · rw [heq]
    exact calculation hcatalog op hleft hright

theorem negate {f : Fragment} (h : Headed catalog occurs f) :
  Headed catalog occurs (negate f)
  := by
  cases f with
  | integer | float => exact primitive rfl
  | _ => exact calculation hcatalog .multiply (primitive rfl) h

omit hcatalog

/-- A string in a field that says nothing about the head of the fragment has no head of its
own. -/
theorem setField {f : Fragment} (h : Headed catalog occurs f) {field : String}
    (hfield : field ∉ ["function", nameField, "items"]) (text : String) :
  Headed catalog occurs (f.setField field (.string text))
  := by
  cases f with
  | mapping fields =>
    have hlookup : ∀ key ∈ ["function", nameField, "items"],
        (Table.set field (.string text) fields).lookup key = fields.lookup key := by
      intro key hkey
      apply Table.lookup_set_of_ne
      rintro rfl
      exact hfield hkey
    have hfunction : ((mapping fields).setField field (.string text)).functionName?
        = (mapping fields).functionName? := by
      rw [Fragment.setField, functionName?, functionName?, get?, hlookup _ (by simp)]
      rfl
    constructor
    · exact h.head.congr hfunction (hlookup nameField (by simp))
    · intro i demand value hplace
      rw [Fragment.setField] at hplace hfunction
      cases hplace with
      | calculation hname hitems hoperand =>
        rw [hlookup _ (by simp)] at hitems
        exact h.value (.calculation (hfunction ▸ hname) hitems hoperand)
      | argument hname hne hsignature hparameter =>
        rename_i parameter
        by_cases hkey : parameter.field = field
        · rw [hkey, Table.lookup_set_self]
          exact primitive rfl
        · rw [Table.lookup_set_of_ne hkey]
          exact h.value (.argument (hfunction ▸ hname) hne hsignature hparameter)
  | _ => exact h

theorem labelled {f : Fragment} (h : Headed catalog occurs f) (label : Option String) :
  Headed catalog occurs (f.labelled label)
  := by
  cases label with
  | none => exact h
  | some dataType =>
    rw [Fragment.labelled]
    split
    · exact h.setField (by decide) dataType
    · exact h

end Headed

namespace Grammar

/-- Beside the name of its function a call has the fields of its parameters. -/
theorem isSome_get?_callOf {signature : Signature} {fs : List Fragment}
    (harity : fs.length = signature.parameters.length) {key : String} (hkey : key ≠ "function") :
  ((callOf signature fs).get? key).isSome ↔ ∃ p ∈ signature.parameters, p.field = key
  := by
  have hfunction : ([("function", .string signature.key)] : Fields).lookup key = none := by
    simp [List.lookup_cons, beq_eq_false_iff_ne.mpr hkey]
  rw [callOf, fieldsOf_eq, get?, lookup_callFields, hfunction, Option.or_none,
    Option.isSome_iff_ne_none, Ne, Table.lookup_eq_none_iff, not_not, Table.keys, List.map_reverse,
    List.mem_reverse, ← Table.keys, keys_argumentEntries harity, List.mem_map]

variable {scope : Parse.Scope} (hcatalog : scope.catalog.Writable)

include hcatalog

/-- What stands at a place of a call is one of the arguments, labelled. -/
theorem exists_of_asks_callOf {name : String} {signature : Signature} {fs : List Fragment}
    (hfunction : scope.catalog.get? name = some signature)
    (hcalled : (callOf signature fs).functionName? = some name) {i : Nat} {demand : Demand}
    {value : Fragment} (hplace : Asks scope.catalog (callOf signature fs) i demand value) :
  value = .null ∨ ∃ f ∈ fs, ∃ label, value = f.labelled label
  := by
  rw [callOf, fieldsOf_eq] at hplace hcalled
  cases hplace with
  | calculation hcalculate =>
    obtain rfl := Option.some.inj (hcalled.symm.trans hcalculate)
    exact absurd rfl (hcatalog.ne_calculate hfunction)
  | @argument _ _ _ _ parameter hother _ hsignature hparameter =>
    obtain rfl := Option.some.inj (hcalled.symm.trans hother)
    obtain rfl := Option.some.inj (hfunction.symm.trans hsignature)
    have hfield := hcatalog.field_ne_function hfunction (List.mem_of_getElem? hparameter)
    rw [lookup_callFields]
    cases hentry : (argumentEntries signature.parameters fs).reverse.lookup parameter.field with
    | none =>
      left
      simp [List.lookup_cons, beq_eq_false_iff_ne.mpr hfield]
    | some value =>
      right
      have hmem := List.mem_reverse.mp (Table.mem_of_lookup hentry)
      obtain ⟨argument, hargument, heq⟩ := List.mem_map.mp hmem
      exact ⟨argument.2, (List.of_mem_zip hargument).2, _, (Prod.mk.inj heq).2.symm⟩

/-- The head of a call of a function of the catalog occurs if the name of the function does. -/
theorem headed_callOf {name : String} {signature : Signature} {fs : List Fragment}
    (hfunction : scope.catalog.get? name = some signature) (hname : occurs name)
    (harity : fs.length = signature.parameters.length)
    (hfs : ∀ f ∈ fs, Headed scope.catalog occurs f) :
  Headed scope.catalog occurs (callOf signature fs)
  := by
  have hcalled := functionName?_callOf hcatalog hfunction harity
  constructor
  · constructor
    · intro hvariable
      obtain rfl := Option.some.inj (hcalled.symm.trans hvariable)
      exact absurd rfl (hcatalog.ne_variable hfunction)
    · intro function other hother _
      obtain rfl := Option.some.inj (hcalled.symm.trans hother)
      exact hname
    · intro function other hother hsignature
      obtain rfl := Option.some.inj (hcalled.symm.trans hother)
      obtain rfl := Option.some.inj (hfunction.symm.trans hsignature)
      exact isSome_get?_callOf harity (by decide)
  · intro i demand value hplace
    rcases exists_of_asks_callOf hcatalog hfunction hcalled hplace with rfl | ⟨f, hf, label, rfl⟩
    · exact .null
    · exact (hfs f hf).labelled label

/-- The head of a variable is its name. -/
theorem headed_variableOf {name dataType : String} (hname : occurs name) :
  Headed scope.catalog occurs (variableOf name dataType)
  := by
  have hother : ∀ function signature, (variableOf name dataType).functionName? = some function →
      scope.catalog.get? function ≠ some signature := by
    intro function signature hfunction hsignature
    obtain rfl : variableFunction = function := Option.some.inj hfunction
    exact hcatalog.ne_variable hsignature rfl
  constructor
  · exact .of_not_called hother fun _ => ⟨name, rfl, hname⟩
  · intro i demand value hplace
    cases hplace with
    | calculation hcalculate =>
      exact absurd (Option.some.inj hcalculate : variableFunction = calculateFunction) (by decide)
    | argument hfunction _ hsignature => exact absurd hsignature (hother _ _ hfunction)

/-- All heads of what is derived occur among the names it is derived from. -/
theorem Derives.headed {phrase : Phrase} {ts : List Terminal} (h : Derives scope phrase ts)
    (hoccurs : ∀ t ∈ ts, t.kind = .identifier → occurs t.word) :
  phrase.All (Headed scope.catalog occurs)
  := by
  induction h with
  | loosen _ _ ih => exact ih hoccurs
  | binary _ _ _ ihleft ihright =>
    apply Headed.apply hcatalog
    · exact ihleft fun t ht => hoccurs t (by simp [ht])
    · exact ihright fun t ht => hoccurs t (by simp [ht])
  | negative _ _ ih => exact .negate hcatalog (ih fun t ht => hoccurs t (by simp [ht]))
  | group _ _ _ ih => exact ih fun t ht => hoccurs t (by simp [ht])
  | call hname _ hfunction harity _ _ _ ih =>
    exact headed_callOf hcatalog hfunction (hoccurs _ (by simp) hname) harity
      (ih fun t ht => hoccurs t (by simp [ht]))
  | emptyCall hname _ hfunction harity | constant hname _ hfunction harity =>
    exact headed_callOf hcatalog hfunction (hoccurs _ (by simp) hname) (by simp [harity]) (by simp)
  | declared hname => exact headed_variableOf hcatalog (hoccurs _ (by simp) hname)
  | first _ ih =>
    intro f hf
    rw [List.mem_singleton.mp hf]
    exact ih hoccurs
  | further _ _ _ ihs ih =>
    intro f hf
    rcases List.mem_append.mp hf with hf | hf
    · exact ihs (fun t ht => hoccurs t (by simp [ht])) f hf
    · rw [List.mem_singleton.mp hf]
      exact ih fun t ht => hoccurs t (by simp [ht])
  | integer | float | string | trueWord | falseWord => exact .primitive rfl

theorem DerivesLine.headed {f : Fragment} {ts : List Terminal} (h : DerivesLine scope f ts)
    (hoccurs : ∀ t ∈ ts, t.kind = .identifier → occurs t.word) :
  Headed scope.catalog occurs f
  := by
  cases h with
  | trigger => exact .trigger _
  | expression hderives => exact hderives.headed hcatalog hoccurs

end Grammar

/-! ### Regions of mismatches -/

namespace Mismatch

/-- The value that stands where another type is asked for. -/
def value? : Mismatch → Option Fragment
  | .result .. => none
  | .operand _ value _ | .argument _ _ value _ _ => some value

/-- The function that the value is an argument of, if it is one. -/
def owner? : Mismatch → Option String
  | .argument owner _ _ _ _ => some owner
  | _ => none

theorem candidates_eq {mismatch : Mismatch} {value : Fragment}
    (h : mismatch.value? = some value) :
  mismatch.candidates = (headName? value).toList ++ mismatch.owner?.toList
  := by
  cases mismatch <;> cases h
  · exact (List.append_nil _).symm
  · rfl

end Mismatch

theorem Demand.value?_of_mismatch? {demand : Demand} {value : Fragment} {mismatch : Mismatch}
    (h : demand.mismatch? catalog value = some mismatch) :
  mismatch.value? = some value
  := by
  cases demand with
  | free => cases h
  | operand | argument =>
    simp only [mismatch?, Option.ite_none_left_eq_some, Option.some.injEq] at h
    obtain ⟨-, rfl⟩ := h
    rfl

/-- The head of a value with a mismatch occurs if all heads of the fragment do. -/
theorem Violates.hasHead {f value : Fragment} {position : List Nat} {mismatch : Mismatch}
    (h : Violates catalog f position mismatch) (hf : Headed catalog occurs f)
    (hvalue : mismatch.value? = some value) :
  HasHead catalog occurs value
  := by
  induction h with
  | here hplace hmismatch =>
    obtain rfl := Option.some.inj ((Demand.value?_of_mismatch? hmismatch).symm.trans hvalue)
    exact (hf.value hplace).head
  | inner hplace _ ih => exact ih (hf.value hplace) hvalue

/-! ### Regions of mismatches -/

section

variable {source : List Char} {mismatch : Mismatch}

/-- Some identifier of the text has the name. -/
def Occurs (source : List Char) (name : String) : Prop :=
  ∃ token ∈ properTokens source, token.isWord name = true

/-- The region is that of an identifier of the text with the name. -/
def Covers (source : List Char) (region : Text.Region) (name : String) : Prop :=
  ∃ token ∈ properTokens source, token.isWord name = true ∧ region = token.region source

instance (source : List Char) (region : Text.Region) (name : String) :
    Decidable (Covers source region name) :=
  inferInstanceAs (Decidable (∃ token ∈ properTokens source, _))

theorem findIdentifier?_eq_none_iff {name : String} :
  findIdentifier? source name = none ↔ ¬ Occurs source name
  := by
  simp [findIdentifier?, Occurs]

/-- No identifier is empty. -/
theorem Occurs.ne_empty {name : String} (h : Occurs source name) :
  name ≠ ""
  := by
  rintro rfl
  obtain ⟨token, htoken, hword⟩ := h
  obtain ⟨c, others, -, htext⟩ := exists_first_of_mem_properTokens htoken
  rw [Token.isWord, Bool.and_eq_true, beq_iff_eq, beq_iff_eq] at hword
  apply Lexeme.first_text_ne_nil c others
  rw [← htext]
  exact String.ofList_eq_empty_iff.mp hword.2

namespace Mismatch

/-- The region is that of the first name that occurs. -/
theorem covers_region {before after : List String} {name : String}
    (h : mismatch.candidates = before ++ name :: after)
    (hbefore : ∀ other ∈ before, ¬ Occurs source other) (hname : Occurs source name) :
  Covers source (mismatch.region source) name
  := by
  have hnone : before.findSome? (findIdentifier? source) = none := by
    rw [List.findSome?_eq_none_iff]
    intro other hother
    exact findIdentifier?_eq_none_iff.mpr (hbefore other hother)
  cases hfound : findIdentifier? source name with
  | none => exact absurd hname (findIdentifier?_eq_none_iff.mp hfound)
  | some token =>
    obtain ⟨hmem, hkind, hword⟩ := of_findIdentifier? hfound
    refine ⟨token, hmem, by simp [Token.isWord, hkind, hword], ?_⟩
    rw [region, h, List.findSome?_append, hnone, List.findSome?_cons, hfound]
    rfl

theorem covers_first {after : List String} {name : String}
    (h : mismatch.candidates = name :: after) (hname : Occurs source name) :
  Covers source (mismatch.region source) name
  := @covers_region source mismatch [] after name h nofun hname

/-- Without a name that occurs, the region is the whole text. -/
theorem region_eq_ofLine (h : ∀ name ∈ mismatch.candidates, ¬ Occurs source name) :
  mismatch.region source = .ofLine source
  := by
  have hnone : mismatch.candidates.findSome? (findIdentifier? source) = none := by
    rw [List.findSome?_eq_none_iff]
    intro name hname
    exact findIdentifier?_eq_none_iff.mpr (h name hname)
  rw [region, hnone]

/-- Where a value is shown that has an argument in place of the name of a variable: at the first
identifier that is spelled like the argument, or else where the function is called that the value
is an argument of. -/
structure ShownUnder (source : List Char) (mismatch : Mismatch) (argument : Fragment) : Prop where
  spelled : argument.isTruthy = true → Occurs source argument.plain →
    Covers source (mismatch.diagnostic source).region argument.plain
  unspelled : (argument.isTruthy = true → ¬ Occurs source argument.plain) →
    ∀ owner, mismatch.owner? = some owner → Occurs source owner →
      Covers source (mismatch.diagnostic source).region owner
  whole : (argument.isTruthy = true → ¬ Occurs source argument.plain) →
    (∀ owner, mismatch.owner? = some owner → ¬ Occurs source owner) →
      (mismatch.diagnostic source).region = .ofLine source

theorem shownUnder {value argument : Fragment} {function : String}
    (hvalue : mismatch.value? = some value) (hfunction : value.functionName? = some function)
    (hargument : value.get? nameField = some argument) :
  mismatch.ShownUnder source argument
  := by
  have hhead : headName? value = if argument.isTruthy then some argument.plain else none := by
    rw [headName?, hfunction, Option.bind_some, ← nameField, hargument]
  have hcandidates := candidates_eq hvalue
  rw [hhead] at hcandidates
  have hbefore : (argument.isTruthy = true → ¬ Occurs source argument.plain) →
      ∀ name ∈ (if argument.isTruthy then some argument.plain else none).toList,
        ¬ Occurs source name := by
    intro h name hname
    rw [Option.mem_toList, Option.ite_none_right_eq_some, Option.some.injEq] at hname
    obtain ⟨htruthy, rfl⟩ := hname
    exact h htruthy
  constructor
  · intro htruthy hoccurs
    rw [if_pos htruthy] at hcandidates
    exact covers_first hcandidates hoccurs
  · intro h owner howner hoccurs
    rw [howner] at hcandidates
    exact covers_region hcandidates (hbefore h) hoccurs
  · intro h howner
    apply region_eq_ofLine
    intro name hname
    rw [hcandidates, List.mem_append] at hname
    rcases hname with hname | hname
    · exact hbefore h name hname
    · exact howner name (Option.mem_toList.mp hname)

/-- The value is shown at its head if that occurs. -/
theorem covers_headName? {value : Fragment} {name : String}
    (hvalue : mismatch.value? = some value) (hname : headName? value = some name)
    (hoccurs : Occurs source name) :
  Covers source (mismatch.diagnostic source).region name
  := by
  have hcandidates := candidates_eq hvalue
  rw [hname] at hcandidates
  exact covers_first hcandidates hoccurs

/-- Where a value is shown that has a type other than its place asks for. -/
structure ShownAtHead (catalog : Catalog) (source : List Char) (mismatch : Mismatch)
    (value : Fragment) : Prop where
  /-- A variable is shown at its name. -/
  declared : value.functionName? = some variableFunction →
    ∃ name, value.get? nameField = some (.string name)
      ∧ Covers source (mismatch.diagnostic source).region name
  /-- A call is shown at the name of its function, unless one of its arguments takes the place of
  the name of a variable. -/
  called : ∀ function signature, value.functionName? = some function →
    catalog.get? function = some signature → (∀ p ∈ signature.parameters, p.field ≠ nameField) →
      Covers source (mismatch.diagnostic source).region function
  misnamed : ∀ function signature, value.functionName? = some function →
    catalog.get? function = some signature → (∃ p ∈ signature.parameters, p.field = nameField) →
      ∃ argument, value.get? nameField = some argument ∧ mismatch.ShownUnder source argument

theorem shownAtHead {value : Fragment} (hvalue : mismatch.value? = some value)
    (h : HasHead catalog (Occurs source) value) :
  mismatch.ShownAtHead catalog source value
  := by
  constructor
  · intro hvariable
    obtain ⟨name, hname, hoccurs⟩ := h.declared hvariable
    have htruthy : (Fragment.string name).isTruthy = true := by
      simp [isTruthy, hoccurs.ne_empty]
    exact ⟨name, hname, (shownUnder hvalue hvariable hname).spelled htruthy hoccurs⟩
  · intro function signature hfunction hsignature hfields
    apply covers_headName? hvalue
    · have hnone : value.get? nameField = none := by
        rw [← Option.not_isSome_iff_eq_none, h.named function signature hfunction hsignature]
        simpa using hfields
      rw [headName?, hfunction, Option.bind_some, ← nameField, hnone]
    · exact h.called function signature hfunction hsignature
  · intro function signature hfunction hsignature hfields
    rw [← h.named function signature hfunction hsignature, Option.isSome_iff_exists] at hfields
    obtain ⟨argument, hargument⟩ := hfields
    exact ⟨argument, hargument, shownUnder hvalue hfunction hargument⟩

end Mismatch

/-- Every value with a mismatch is shown at its head. -/
theorem shownAtHead_of_mem_mismatches {scope : Parse.Scope} (hcatalog : scope.catalog.Writable)
    {f value : Fragment} (hparse : parseLine scope source = .ok f) {expected : String}
    (hmem : mismatch ∈ mismatches scope.catalog f expected)
    (hvalue : mismatch.value? = some value) :
  mismatch.ShownAtHead scope.catalog source value
  := by
  have hheaded : Headed scope.catalog (Occurs source) f := by
    apply (Grammar.derivesLine_of_parseLine hparse).headed hcatalog
    intro t ht hkind
    obtain ⟨token, htoken, rfl⟩ := List.mem_map.mp ht
    refine ⟨token, mem_properTokens_of_mem_significantTokens htoken, ?_⟩
    rw [Token.isWord, ← Token.terminal_kind, hkind, Token.terminal_word]
    simp
  obtain ⟨entries, hentries, heq⟩ := @exists_lists_fails scope.catalog f expected
  rw [← heq] at hmem
  obtain ⟨⟨position, _⟩, hentry, rfl⟩ := List.mem_map.mp hmem
  cases (hentries.mem_iff _ _).mp hentry with
  | result => cases hvalue
  | within hviolates => exact Mismatch.shownAtHead hvalue (hviolates.hasHead hheaded hvalue)

end

/-! ### The built-in catalog -/

/-- In the catalog of the game, only one function has an argument that is stored where a variable
has its name. -/
theorem Catalog.nameField_builtin {function : String} {signature : Signature}
    (h : builtin.get? function = some signature) :
  (∃ p ∈ signature.parameters, p.field = nameField) ↔ function = "setVariable"
  := by
  have hall : ∀ entry ∈ builtin.functions,
      ((∃ p ∈ entry.2.parameters, p.field = nameField) ↔ entry.1 = "setVariable") := by
    decide +kernel
  exact hall _ (Table.mem_of_lookup h)

/-- Where the values are shown that have a type other than their place asks for, in a script for
the game. -/
structure PointsAtHead (source : List Char) (mismatch : Mismatch) : Prop where
  /-- A variable is shown at its name. -/
  variableName : ∀ value, mismatch.value? = some value →
    value.functionName? = some variableFunction →
      ∃ name, value.get? nameField = some (.string name)
        ∧ Covers source (mismatch.diagnostic source).region name
  /-- A call is shown at the name of its function. -/
  calledFunction : ∀ value function, mismatch.value? = some value →
    value.functionName? = some function → Catalog.builtin.contains function = true →
      function ≠ "setVariable" → Covers source (mismatch.diagnostic source).region function
  /-- Only where a variable is set, the call is shown under its first argument. -/
  setVariable : ∀ value, mismatch.value? = some value →
    value.functionName? = some "setVariable" →
      ∃ argument, value.get? nameField = some argument ∧ mismatch.ShownUnder source argument

/-- Whatever is wrong with the types of a line in a script for the game is shown at the head of
the value that it is about, but for calls that set a variable. -/
theorem pointsAtHead_of_parseLine {declarations : Parse.Declarations} {source : List Char}
    {f : Fragment} (hparse : parseLine ⟨.builtin, declarations⟩ source = .ok f)
    {expected : String} {mismatch : Mismatch} (hmem : mismatch ∈ mismatches .builtin f expected) :
  PointsAtHead source mismatch
  := by
  have hcatalog : Catalog.builtin.Writable := ⟨by decide, by decide, by decide⟩
  have hshown : ∀ value, mismatch.value? = some value →
      mismatch.ShownAtHead .builtin source value :=
    fun _ => shownAtHead_of_mem_mismatches hcatalog hparse hmem
  constructor
  · intro value hvalue
    exact (hshown value hvalue).declared
  · intro value function hvalue hfunction hknown hne
    obtain ⟨signature, hsignature⟩ := Option.isSome_iff_exists.mp hknown
    apply (hshown value hvalue).called function signature hfunction hsignature
    intro p hp hfield
    exact hne ((Catalog.nameField_builtin hsignature).mp ⟨p, hp, hfield⟩)
  · intro value hvalue hfunction
    obtain ⟨signature, hsignature⟩ : ∃ s, Catalog.builtin.get? "setVariable" = some s :=
      Option.isSome_iff_exists.mp (by decide +kernel)
    exact (hshown value hvalue).misnamed _ signature hfunction hsignature
      ((Catalog.nameField_builtin hsignature).mpr rfl)

deriving instance DecidableEq for Mismatch

/-- A unit that should be a number is shown where it is written, and a call where it is called. -/
theorem pointsAtHead_of_parseLine_knight :
  let source := "setHealth(knight, getPlayerName(knight))".toList
  let declarations : Parse.Declarations := { variableTypes := [("knight", some "player")] }
  let knight := Grammar.variableOf "knight" "player"
  let playerName := mapping [("function", .string "getPlayerName"), ("player", knight)]
  let f := mapping [("function", .string "setHealth"), ("entity", knight), ("value", playerName)]
  parseLine ⟨.builtin, declarations⟩ source = .ok f
    ∧ mismatches .builtin f "action"
      = [.argument "setHealth" "entity" knight "unit" "player",
        .argument "setHealth" "value" playerName "number" "string"]
    ∧ ∀ mismatch ∈ mismatches .builtin f "action", PointsAtHead source mismatch
  := by
  intro source declarations knight playerName f
  have hparse : parseLine ⟨.builtin, declarations⟩ source = .ok f := by decide +kernel
  exact ⟨hparse, by decide +kernel, fun _ hmem => pointsAtHead_of_parseLine hparse hmem⟩

/-- A call that sets a variable is shown at a unit that is called like the variable. -/
theorem not_covers_setVariable :
  let source := "setHealth(triggeringUnit, setVariable(\"triggeringUnit\", 1))".toList
  let value := mapping [("function", .string "setVariable"),
    ("variableName", .string "triggeringUnit"), ("value", .integer 1)]
  let f := mapping [("function", .string "setHealth"), ("entity", .call "triggeringUnit"),
    ("value", value)]
  let mismatch := Mismatch.argument "setHealth" "value" value "number" "action"
  parseLine ⟨.builtin, {}⟩ source = .ok f ∧ mismatch ∈ mismatches .builtin f ""
    ∧ mismatch.value? = some value ∧ value.functionName? = some "setVariable"
    ∧ Catalog.builtin.contains "setVariable" = true
    ∧ ¬ Covers source (mismatch.diagnostic source).region "setVariable"
    ∧ Covers source (mismatch.diagnostic source).region "triggeringUnit"
  := by
  refine ⟨?_, ?_, rfl, rfl, ?_, ?_, ?_⟩ <;> decide +kernel

end TriggerLang
