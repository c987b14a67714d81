import TriggerLang.Proofs.Document.Processed
import TriggerLang.Proofs.Script.Accepted
import TriggerLang.Proofs.Typing.WellTyped

/-!
# Types of processed fragments

Processing drops the fields that types of variables and entities are read off, and adds the
fields of bound entities.  The type of a processed fragment is therefore that of the fragment
itself or unknown, and a value of unknown type is accepted everywhere.  What stands at a place
of a processed fragment is what stood there before, processed in turn, or nothing at all, as
long as no parameter of the script's own entity can be filled with what is bound.
-/

namespace TriggerLang

open Fragment

variable {catalog : Catalog} (table : SideTable) (name : String)

/-! ### What processing leaves alone -/

namespace Fragment

/-- Processing keeps a string and makes none. -/
theorem strip_eq_string_iff {fragment : Fragment} {text : String} :
  (strip [.bind table] name fragment).value = .string text ↔ fragment = .string text
  := by
  cases fragment <;> simp [strip]

theorem getElem?_stripItems (effects : List FieldEffect) (index : Nat) (items : List Fragment)
    (i : Nat) :
  (stripItems effects index items).value[i]?
    = items[i]?.map fun item =>
        (strip effects (String.ofList (Nat.toDigits 10 (index + i))) item).value
  := by
  induction items generalizing index i with
  | nil => rfl
  | cons item rest ih =>
    cases i with
    | zero => rfl
    | succ i =>
      rw [stripItems, List.getElem?_cons_succ, List.getElem?_cons_succ, ih, Nat.add_right_comm,
        Nat.add_assoc]

/-- What stands behind the first item of a stripped list stood there before. -/
theorem exists_of_getElem?_tail_stripItems {effects : List FieldEffect} {items : List Fragment}
    {i : Nat} {item : Fragment} (h : (stripItems effects 0 items).value.tail[i]? = some item) :
  ∃ before inner, items.tail[i]? = some before ∧ item = (strip effects inner before).value
  := by
  rw [List.getElem?_tail, getElem?_stripItems, Option.map_eq_some_iff] at h
  obtain ⟨before, hbefore, rfl⟩ := h
  exact ⟨before, _, List.getElem?_tail.trans hbefore, rfl⟩

/-- A field that holds a string, and is neither reserved nor one of an entity, holds it after
processing, and no other one comes to hold a string. -/
theorem get?_strip_eq_string_iff {field : String} (hreserved : isReserved field = false)
    (hentity : field ∉ ["entity", "key"]) {fragment : Fragment} {text : String} :
  (strip [.bind table] name fragment).value.get? field = some (.string text)
    ↔ fragment.get? field = some (.string text)
  := by
  cases fragment with
  | mapping fields =>
    rw [strip_eq_processedFields, get?, get?, lookup_processedFields table name hreserved hentity,
      Option.map_eq_some_iff]
    simp [strip_eq_string_iff]
  | _ => simp [strip, get?]

theorem functionName?_eq_some_iff {fragment : Fragment} {function : String} :
  fragment.functionName? = some function ↔ fragment.get? "function" = some (.string function)
  := by
  rw [functionName?]
  split <;> simp_all

/-- A call is a call of the same function after processing. -/
theorem functionName?_strip (fragment : Fragment) :
  (strip [.bind table] name fragment).value.functionName? = fragment.functionName?
  := by
  ext function
  rw [functionName?_eq_some_iff, functionName?_eq_some_iff,
    get?_strip_eq_string_iff table name (by decide) (by decide)]

end Fragment

/-- A condition has the same connective after processing. -/
theorem connective?_stripItems (parts : List Fragment) :
  connective? (stripItems [.bind table] 0 parts).value = connective? parts
  := by
  cases parts with
  | nil => rfl
  | cons header operands =>
    have hoperator : ∀ text, (strip [.bind table] "0" header).value.get? "operator"
        = some (.string text) ↔ header.get? "operator" = some (.string text) :=
      fun text => get?_strip_eq_string_iff table "0" (by decide) (by decide)
    simp only [connective?, stripItems, List.head?_cons, Option.bind_some]
    split
    · rename_i text htext
      rw [(hoperator text).mp htext]
    · rename_i hother
      split
      · rename_i text htext
        exact absurd ((hoperator text).mpr htext) (hother text)
      · rfl

/-! ### Types -/

theorem inferType_of_functionName? {name : String} {fragment : Fragment}
    (h : fragment.functionName? = some name) :
  inferType catalog fragment = callType catalog name fragment
  := by
  cases fragment with
  | mapping fields =>
    simp only [inferType, primitiveType?, h]
  | _ => cases h

/-- The type of a call is read off its function, but for the type of a variable or of the script's
own entity, which is unknown after processing. -/
theorem callType_strip (function : String) (fragment : Fragment) :
  callType catalog function (strip [.bind table] name fragment).value
      = callType catalog function fragment
    ∨ callType catalog function (strip [.bind table] name fragment).value = anyType
  := by
  have hdataType : (strip [.bind table] name fragment).value.get? dataTypeField = none :=
    (strip_unreserved _ _ _).get?_eq_none (by decide)
  simp only [callType, hdataType]
  split
  · exact .inl rfl
  · split
    · exact .inr rfl
    · exact .inl rfl

/-- The type of a processed fragment is that of the fragment or unknown. -/
theorem inferType_strip (fragment : Fragment) :
  inferType catalog (strip [.bind table] name fragment).value = inferType catalog fragment
    ∨ inferType catalog (strip [.bind table] name fragment).value = anyType
  := by
  cases fragment with
  | mapping fields =>
    have hname := functionName?_strip table name (.mapping fields)
    cases hfunction : (Fragment.mapping fields).functionName? with
    | none =>
      right
      rw [strip_eq_processedFields] at hname ⊢
      simp only [inferType, primitiveType?, hname, hfunction]
    | some function =>
      rw [inferType_of_functionName? hfunction, inferType_of_functionName? (hname.trans hfunction)]
      exact callType_strip table name function (.mapping fields)
  | _ => exact .inl rfl

/-- A value that was accepted somewhere is accepted there after processing. -/
theorem isAssignable_strip {fragment : Fragment} {expected : String}
    (h : isAssignable (inferType catalog fragment) expected = true) :
  isAssignable (inferType catalog (strip [.bind table] name fragment).value) expected = true
  := by
  rcases @inferType_strip catalog table name fragment with htype | htype
  · rwa [htype]
  · simp [htype, isAssignable]

theorem Demand.Accepts.strip {demand : Demand} {value : Fragment}
    (h : demand.Accepts catalog value) :
  demand.Accepts catalog (strip [.bind table] name value).value
  := by
  cases demand with
  | free => trivial
  | operand => exact isAssignable_strip table name h
  | argument => exact isAssignable_strip table name h

/-- A missing argument is accepted everywhere. -/
theorem Demand.accepts_null (demand : Demand) :
  demand.Accepts catalog .null
  := by
  have htype : inferType catalog .null = anyType := rfl
  cases demand <;> simp [Accepts, htype, isAssignable]

theorem wellTyped_null :
  WellTyped catalog .null
  := by
  constructor
  · rintro i demand value ⟨⟩
  · rintro i demand value ⟨⟩

/-! ### Places -/

/-- The script's own entity has no parameters, if the catalog knows it. -/
def Catalog.SparesEntity (catalog : Catalog) : Prop :=
  ∀ signature, catalog.get? thisEntityFunction = some signature → signature.parameters = []

theorem Catalog.sparesEntity_builtin :
  builtin.SparesEntity
  := by
  intro signature h
  obtain rfl : _ = signature := Option.some.inj ((by decide +kernel : builtin.get?
    thisEntityFunction = some ⟨"thisEntity", [], "any", "entity", "this entity"⟩).symm.trans h)
  rfl

variable (hentity : catalog.SparesEntity)

include hentity

/-- The argument of a call after processing was its argument before, or is missing. -/
theorem argument_processedFields {fields : Fields} {function : String}
    {signature : Signature} {parameter : Parameter}
    (hname : (mapping fields).functionName? = some function)
    (hfunction : catalog.get? function = some signature)
    (hparameter : parameter ∈ signature.parameters) :
  (processedFields table name fields).lookup parameter.field = none
    ∨ ∃ before, fields.lookup parameter.field = some before
      ∧ (processedFields table name fields).lookup parameter.field
        = some (strip [.bind table] parameter.field before).value
  := by
  have hother : (mapping fields).functionName? ≠ some thisEntityFunction := by
    intro heq
    obtain rfl : function = thisEntityFunction := Option.some.inj (hname.symm.trans heq)
    rw [hentity signature hfunction] at hparameter
    cases hparameter
  have hstrip := strip_mapping table hother name
  rw [strip_eq_processedFields] at hstrip
  rw [mapping.inj hstrip]
  cases hreserved : isReserved parameter.field with
  | true =>
    left
    exact (stripFields_unreserved _ _ fields).lookup_eq_none hreserved
  | false =>
    rw [lookup_stripFields hreserved List.lookup_nil]
    cases hbefore : fields.lookup parameter.field with
    | none => exact .inl rfl
    | some before => exact .inr ⟨before, rfl, rfl⟩

/-- What stands at a place of a processed fragment stood there before, or nothing stands there. -/
theorem Asks.of_strip {fragment value : Fragment} {i : Nat} {demand : Demand}
    (h : Asks catalog (strip [.bind table] name fragment).value i demand value) :
  value = .null ∨ ∃ before inner, Asks catalog fragment i demand before
    ∧ value = (strip [.bind table] inner before).value
  := by
  cases fragment with
  | list parts =>
    rw [strip] at h
    cases h with
    | condition hoperand =>
      right
      obtain ⟨before, inner, hbefore, hvalue⟩ := exists_of_getElem?_tail_stripItems hoperand
      rw [connective?_stripItems table]
      exact ⟨before, inner, .condition hbefore, hvalue⟩
  | mapping fields =>
    have hname := functionName?_strip table name (.mapping fields)
    rw [strip_eq_processedFields] at h hname
    cases h with
    | calculation hcalculate hitems hoperand =>
      right
      rw [lookup_processedFields table name (by decide) (by decide),
        Option.map_eq_some_iff] at hitems
      obtain ⟨items, hbefore, hitems⟩ := hitems
      cases items with
      | list items =>
        rw [strip] at hitems
        obtain rfl := list.inj hitems
        obtain ⟨before, inner, hoperand, hvalue⟩ := exists_of_getElem?_tail_stripItems hoperand
        exact ⟨before, inner, .calculation (hname ▸ hcalculate) hbefore hoperand, hvalue⟩
      | _ => simp [strip] at hitems
    | @argument _ function signature _ parameter hfunction hne hsignature hparameter =>
      rw [hname] at hfunction
      have hmem := List.mem_of_getElem? hparameter
      rcases argument_processedFields table name hentity hfunction hsignature hmem with
        hnone | ⟨before, hbefore, hsome⟩
      · left
        rw [hnone]
        rfl
      · right
        refine ⟨before, parameter.field, ?_, ?_⟩
        · have hplace := Asks.argument (i := i) hfunction hne hsignature hparameter
          rwa [hbefore] at hplace
        · rw [hsome]
          rfl
  | _ => cases h

/-- A well-typed fragment is well typed after processing. -/
theorem WellTyped.strip {fragment : Fragment} (h : WellTyped catalog fragment) :
  WellTyped catalog (strip [.bind table] name fragment).value
  := by
  induction h generalizing name with
  | intro haccepts hvalues ih =>
    constructor
    · intro i demand value hplace
      rcases Asks.of_strip table name hentity hplace with rfl | ⟨before, inner, hbefore, rfl⟩
      · exact demand.accepts_null
      · exact (haccepts i demand before hbefore).strip table inner
    · intro i demand value hplace
      rcases Asks.of_strip table name hentity hplace with rfl | ⟨before, inner, hbefore, rfl⟩
      · exact wellTyped_null
      · exact ih i demand before hbefore inner

/-- What has nothing wrong with it has nothing wrong with it after processing. -/
theorem mismatches_postProcess {fragment : Fragment} {expected : String}
    (h : mismatches catalog fragment expected = []) :
  mismatches catalog (fragment.postProcess table) expected = []
  := by
  rw [mismatches_eq_nil_iff] at h ⊢
  exact ⟨isAssignable_strip table "" h.1, h.2.strip table "" hentity⟩

omit hentity

/-- A primitive value of a type that will do has nothing wrong with it. -/
theorem mismatches_of_isPrimitive {value : Fragment} {expected : String}
    (hprimitive : value.isPrimitive = true) (haccepts : acceptsPrimitive value expected = true) :
  mismatches catalog value expected = []
  := by
  cases value <;> simp_all [isPrimitive, acceptsPrimitive, primitiveType?, mismatches, inferType,
    argumentMismatches]

/-! ### Accepted expressions -/

/-- What an expression is kept as has nothing wrong with it. -/
theorem Keeps.mismatches_eq_nil {scope : Parse.Scope} {context : Context} {expected : String}
    (hentity : scope.catalog.SparesEntity) {f kept : Fragment}
    (h : Keeps scope context expected f kept) :
  mismatches scope.catalog kept expected = []
  := by
  cases h with
  | primitive hprimitive haccepts => exact mismatches_of_isPrimitive hprimitive haccepts
  | processed hprimitive hmismatches => exact mismatches_postProcess _ hentity hmismatches

/-- An expression that is accepted, whether bare words stand for strings in it or not, is kept as
a fragment that is accepted again, whatever text it is shown in. -/
theorem checkType_eq_nil_of_accepted {scope : Parse.Scope} {context : Context}
    {text : List Char} {expected : String} {kept : Fragment}
    (hentity : scope.catalog.SparesEntity)
    (h : (evaluate (.ofScope scope) context text expected).accepted? = some kept
      ∨ (evaluateSource (.ofScope scope) context text expected).accepted? = some kept)
    (source : List Char) :
  checkType scope.catalog source kept expected = []
  := by
  have hsource : ∃ text,
      (evaluateSource (.ofScope scope) context text expected).accepted? = some kept :=
    h.elim (fun h => ⟨_, h⟩) fun h => ⟨_, h⟩
  obtain ⟨text, haccepted⟩ := hsource
  obtain ⟨f, -, hkeeps⟩ := accepted?_evaluateSource_iff.mp haccepted
  rw [checkType, hkeeps.mismatches_eq_nil hentity]
  rfl

/-- The script's own entity is accepted as a unit, and as the unit that it is bound to. -/
theorem checkType_boundEntity :
  let context : Context := { sideTable := ⟨[⟨"unit", "Golem", "u1"⟩]⟩ }
  let kept := mapping [("function", .string "destroyEntity"), ("entity",
    .mapping [("function", .string "thisEntity"), ("entity", .string "Golem"),
      ("key", .string "u1")])]
  (evaluate (.ofScope ⟨.builtin, {}⟩) context "destroyEntity(thisEntity)".toList
      "action").accepted? = some kept
    ∧ checkType .builtin [] kept "action" = []
  := by
  intro context kept
  have haccepted : (evaluate (.ofScope ⟨.builtin, {}⟩) context
      "destroyEntity(thisEntity)".toList "action").accepted? = some kept := by
    decide +kernel
  exact ⟨haccepted, checkType_eq_nil_of_accepted Catalog.sparesEntity_builtin (.inl haccepted) []⟩

end TriggerLang
