import Mathlib.Data.List.Basic
import Mathlib.Tactic.Common
import TriggerLang.Typing.Mismatch

/-!
# Well-typed fragments

The places of a fragment are the operands of a condition or of a calculation and the
arguments of a call.  Each asks something of the type of the value that stands there
(`Asks`).  A fragment is well typed if all its places have what they ask for and hold
well-typed values in turn.

A position leads from a fragment down to one of its places, by the numbers of the places on
the way.  The mismatches of a fragment are exactly those of its positions that do not have
what they ask for, each of them once and every position before those below it and to the
right of it.
-/

namespace TriggerLang

/-- What a place of a fragment asks of the type of its value. -/
inductive Demand where
  /-- Nothing, for an operand of a comparison. -/
  | free
  /-- A boolean, for an operand of a connective. -/
  | operand (connective : String)
  /-- The type of the parameter, for an argument of a function; or a number, for an operand of
  a calculation. -/
  | argument (owner field dataType : String)

namespace Demand

/-- What the operands of a condition are asked for. -/
def ofConnective : Option String → Demand
  | some connective => .operand connective
  | none => .free

/-- The value has a type that will do. -/
def Accepts (catalog : Catalog) (value : Fragment) : Demand → Prop
  | .free => True
  | .operand _ => isAssignable (inferType catalog value) booleanType = true
  | .argument _ _ dataType => isAssignable (inferType catalog value) dataType = true

/-- The mismatch of a value whose type will not do. -/
def mismatch? (catalog : Catalog) (value : Fragment) : Demand → Option Mismatch
  | .free => none
  | .operand connective =>
    let actual := inferType catalog value
    if isAssignable actual booleanType then none else some (.operand connective value actual)
  | .argument owner field dataType =>
    let actual := inferType catalog value
    if isAssignable actual dataType then none
    else some (.argument owner field value dataType actual)

theorem mismatch?_eq_none_iff (catalog : Catalog) (value : Fragment) (demand : Demand) :
  demand.mismatch? catalog value = none ↔ demand.Accepts catalog value
  := by
  cases demand <;> simp [mismatch?, Accepts]

end Demand

/-- The place with a number of a fragment asks `demand` of the value that stands there.  A
call has a place for every parameter of its function, and an argument that is missing is
null. -/
inductive Asks (catalog : Catalog) : Fragment → Nat → Demand → Fragment → Prop
  | condition {parts : List Fragment} {i : Nat} {operand : Fragment}
      (hoperand : parts.tail[i]? = some operand) :
      Asks catalog (.list parts) i (.ofConnective (connective? parts)) operand
  | calculation {fields : Fragment.Fields} {items : List Fragment} {i : Nat} {operand : Fragment}
      (hname : (Fragment.mapping fields).functionName? = some calculateFunction)
      (hitems : fields.lookup "items" = some (.list items))
      (hoperand : items.tail[i]? = some operand) :
      Asks catalog (.mapping fields) i (.argument calculateFunction "items" numberType) operand
  | argument {fields : Fragment.Fields} {name : String} {signature : Signature} {i : Nat}
      {parameter : Parameter}
      (hname : (Fragment.mapping fields).functionName? = some name)
      (hne : name ≠ calculateFunction) (hfunction : catalog.get? name = some signature)
      (hparameter : signature.parameters[i]? = some parameter) :
      Asks catalog (.mapping fields) i (.argument name parameter.field parameter.dataType)
        ((fields.lookup parameter.field).getD .null)

/-- All places of the fragment have what they ask for, and hold well-typed values. -/
inductive WellTyped (catalog : Catalog) : Fragment → Prop
  | intro {fragment : Fragment}
      (haccepts : ∀ i demand value, Asks catalog fragment i demand value →
        demand.Accepts catalog value)
      (hvalues : ∀ i demand value, Asks catalog fragment i demand value →
        WellTyped catalog value) :
      WellTyped catalog fragment

/-- The position within the fragment has the mismatch. -/
inductive Violates (catalog : Catalog) : Fragment → List Nat → Mismatch → Prop
  | here {fragment value : Fragment} {i : Nat} {demand : Demand} {mismatch : Mismatch}
      (hplace : Asks catalog fragment i demand value)
      (hmismatch : demand.mismatch? catalog value = some mismatch) :
      Violates catalog fragment [i] mismatch
  | inner {fragment value : Fragment} {i : Nat} {demand : Demand} {position : List Nat}
      {mismatch : Mismatch} (hplace : Asks catalog fragment i demand value)
      (hvalue : Violates catalog value position mismatch) :
      Violates catalog fragment (i :: position) mismatch

/-- The position of the fragment has the mismatch: the fragment itself if it should have another
type, or a place within it. -/
inductive Fails (catalog : Catalog) (fragment : Fragment) (expected : String) :
    List Nat → Mismatch → Prop
  | result (h : isAssignable (inferType catalog fragment) expected = false) :
      Fails catalog fragment expected [] (.result expected (inferType catalog fragment))
  | within {position : List Nat} {mismatch : Mismatch}
      (h : Violates catalog fragment position mismatch) :
      Fails catalog fragment expected position mismatch

variable {catalog : Catalog}

/-! ### The places of a fragment -/

/-- The operands of a calculation with these fields. -/
def calculationOperands (fields : Fragment.Fields) : List Fragment :=
  match fields.lookup "items" with
  | some (.list items) => items.tail
  | _ => []

/-- The argument of a call for a parameter, with what the parameter asks of it. -/
def argumentPlace (name : String) (fields : Fragment.Fields) (parameter : Parameter) :
    Demand × Fragment :=
  (.argument name parameter.field parameter.dataType,
    (fields.lookup parameter.field).getD .null)

/-- The places of a call of `name`, from the left. -/
def callPlaces (catalog : Catalog) (fields : Fragment.Fields) (name : String) :
    List (Demand × Fragment) :=
  if name = calculateFunction then
    (calculationOperands fields).map fun operand => (.argument name "items" numberType, operand)
  else
    ((catalog.get? name).map Signature.parameters).getD [] |>.map (argumentPlace name fields)

/-- The places of a fragment, from the left. -/
def places (catalog : Catalog) : Fragment → List (Demand × Fragment)
  | .list parts => parts.tail.map fun operand => (.ofConnective (connective? parts), operand)
  | .mapping fields =>
    match (Fragment.mapping fields).functionName? with
    | some name => callPlaces catalog fields name
    | none => []
  | _ => []

theorem getElem?_calculationOperands {fields : Fragment.Fields} {i : Nat} {operand : Fragment} :
  (calculationOperands fields)[i]? = some operand
    ↔ ∃ items, fields.lookup "items" = some (.list items) ∧ items.tail[i]? = some operand
  := by
  rw [calculationOperands]
  split
  · rename_i items hitems
    simp [hitems]
  · rename_i hitems
    simp only [List.getElem?_nil, reduceCtorEq, false_iff]
    rintro ⟨items, heq, -⟩
    exact hitems items heq

/-- The places of a fragment are those that ask something of their values. -/
theorem asks_iff {fragment value : Fragment} {i : Nat} {demand : Demand} :
  Asks catalog fragment i demand value ↔ (places catalog fragment)[i]? = some (demand, value)
  := by
  constructor
  · intro h
    cases h with
    | condition hoperand =>
      rw [places, List.getElem?_map, hoperand]
      rfl
    | calculation hname hitems hoperand =>
      have hoperand' := getElem?_calculationOperands.mpr ⟨_, hitems, hoperand⟩
      simp only [places, hname, callPlaces, if_true, List.getElem?_map, hoperand']
      rfl
    | argument hname hne hfunction hparameter =>
      simp only [places, hname, callPlaces, if_neg hne, hfunction, Option.map_some,
        Option.getD_some, List.getElem?_map, hparameter]
      rfl
  · intro h
    cases fragment with
    | list parts =>
      rw [places, List.getElem?_map, Option.map_eq_some_iff] at h
      obtain ⟨operand, hoperand, heq⟩ := h
      cases heq
      exact .condition hoperand
    | mapping fields =>
      rw [places] at h
      split at h
      case h_2 => cases h
      rename_i name hname
      rw [callPlaces] at h
      split at h
      · rename_i hcalculate
        subst hcalculate
        rw [List.getElem?_map, Option.map_eq_some_iff] at h
        obtain ⟨operand, hoperand, heq⟩ := h
        cases heq
        obtain ⟨items, hitems, hoperand⟩ := getElem?_calculationOperands.mp hoperand
        exact .calculation hname hitems hoperand
      · rename_i hne
        cases hfunction : catalog.get? name with
        | none => simp [hfunction] at h
        | some signature =>
          simp only [hfunction, Option.map_some, Option.getD_some, List.getElem?_map,
            Option.map_eq_some_iff] at h
          obtain ⟨parameter, hparameter, heq⟩ := h
          cases heq
          exact .argument hname hne hfunction hparameter
    | _ => cases h

/-- What stands at a place of a fragment is smaller than the fragment. -/
theorem Asks.sizeOf_lt {fragment value : Fragment} {i : Nat} {demand : Demand}
    (h : Asks catalog fragment i demand value) :
  sizeOf value < sizeOf fragment
  := by
  have htail : ∀ {parts : List Fragment}, parts.tail[i]? = some value →
      sizeOf value < sizeOf parts := fun hvalue =>
    List.sizeOf_lt_of_mem (List.mem_of_mem_tail (List.mem_of_getElem? hvalue))
  cases h with
  | condition hoperand =>
    have := htail hoperand
    simp only [Fragment.list.sizeOf_spec]
    omega
  | calculation hname hitems hoperand =>
    have := htail hoperand
    have := Fragment.sizeOf_lt_of_lookup hitems
    simp only [Fragment.list.sizeOf_spec, Fragment.mapping.sizeOf_spec] at *
    omega
  | @argument fields name signature _ parameter hname =>
    simp only [Fragment.mapping.sizeOf_spec]
    cases hvalue : fields.lookup parameter.field with
    | none =>
      cases fields with
      | nil => cases hname
      | cons entry rest =>
        simp only [Option.getD_none, Fragment.null.sizeOf_spec, List.cons.sizeOf_spec]
        omega
    | some value =>
      have := Fragment.sizeOf_lt_of_lookup hvalue
      simp only [Option.getD_some]
      omega

/-! ### The mismatches place by place -/

/-- The mismatches of a place: its own, then those within its value. -/
def placeMismatches (catalog : Catalog) (place : Demand × Fragment) : List Mismatch :=
  (place.1.mismatch? catalog place.2).toList ++ argumentMismatches catalog place.2

theorem operandMismatch_eq_toList (connective : Option String) (operand : Fragment) :
  operandMismatch catalog connective operand
    = ((Demand.ofConnective connective).mismatch? catalog operand).toList
  := by
  cases connective with
  | none => rfl
  | some connective =>
    simp only [operandMismatch, Demand.ofConnective, Demand.mismatch?]
    split <;> rfl

theorem argumentMismatch_eq_toList (owner field : String) (value : Fragment) (dataType : String) :
  argumentMismatch catalog owner field value dataType
    = ((Demand.argument owner field dataType).mismatch? catalog value).toList
  := by
  simp only [argumentMismatch, Demand.mismatch?]
  split <;> rfl

theorem operandMismatches_eq_flatMap {own : Fragment → List Mismatch} {demand : Demand}
    (hown : ∀ operand, own operand = (demand.mismatch? catalog operand).toList)
    (operands : List Fragment) :
  operandMismatches catalog own operands
    = (operands.map fun operand => (demand, operand)).flatMap (placeMismatches catalog)
  := by
  induction operands with
  | nil =>
    rw [operandMismatches]
    rfl
  | cons operand rest ih =>
    rw [operandMismatches, ih, hown, List.map_cons, List.flatMap_cons]
    rfl

/-- Nothing is wrong with a missing argument. -/
theorem placeMismatches_argumentPlace_of_none {name : String} {fields : Fragment.Fields}
    {parameter : Parameter} (h : fields.lookup parameter.field = none) :
  placeMismatches catalog (argumentPlace name fields parameter) = []
  := by
  have htype : inferType catalog .null = anyType := rfl
  simp [placeMismatches, argumentPlace, h, Demand.mismatch?, htype, isAssignable,
    argumentMismatches]

/-- The mismatches within a call are those of its places. -/
theorem argumentMismatches_mapping {fields : Fragment.Fields} {name : String}
    (hname : (Fragment.mapping fields).functionName? = some name) :
  argumentMismatches catalog (.mapping fields)
    = (callPlaces catalog fields name).flatMap (placeMismatches catalog)
  := by
  simp only [argumentMismatches, hname, callPlaces]
  split
  · rw [calculationOperands]
    split
    · rename_i header operands hitems
      rw [hitems]
      exact operandMismatches_eq_flatMap (fun operand => argumentMismatch_eq_toList ..) operands
    · rename_i hitems
      split
      · rename_i items hlist
        cases items with
        | nil => rfl
        | cons header operands => exact absurd hlist (hitems header operands)
      · rfl
  · split
    · rename_i hfunction
      rw [hfunction]
      rfl
    · rename_i signature hfunction
      rw [hfunction, Option.map_some, Option.getD_some, List.flatMap_map]
      congr 1
      funext parameter
      split
      · rename_i hvalue
        rw [placeMismatches_argumentPlace_of_none hvalue]
      · rename_i value hvalue
        rw [placeMismatches, argumentPlace, hvalue, argumentMismatch_eq_toList]
        rfl

/-- The mismatches within a fragment are those of its places, one place after the other. -/
theorem argumentMismatches_eq_flatMap (fragment : Fragment) :
  argumentMismatches catalog fragment
    = (places catalog fragment).flatMap (placeMismatches catalog)
  := by
  cases fragment with
  | list parts =>
    cases parts with
    | nil => simp [argumentMismatches, places]
    | cons header operands =>
      rw [argumentMismatches]
      exact operandMismatches_eq_flatMap (operandMismatch_eq_toList _) operands
  | mapping fields =>
    cases hname : (Fragment.mapping fields).functionName? with
    | none => simp [argumentMismatches, places, hname]
    | some name =>
      rw [argumentMismatches_mapping hname]
      simp only [places, hname]
  | _ => simp [argumentMismatches, places]

/-! ### Well-typed fragments have no mismatches -/

/-- Nothing is wrong within exactly the well-typed fragments. -/
theorem argumentMismatches_eq_nil_iff (fragment : Fragment) :
  argumentMismatches catalog fragment = [] ↔ WellTyped catalog fragment
  := by
  induction hsize : sizeOf fragment using Nat.strongRecOn generalizing fragment with
  | ind n ih =>
    have hvalue : ∀ {i demand value}, Asks catalog fragment i demand value →
        (argumentMismatches catalog value = [] ↔ WellTyped catalog value) := by
      intro i demand value hplace
      exact ih _ (hsize ▸ hplace.sizeOf_lt) value rfl
    rw [argumentMismatches_eq_flatMap, List.flatMap_eq_nil_iff]
    constructor
    · intro h
      have hplaces : ∀ {i demand value}, Asks catalog fragment i demand value →
          demand.mismatch? catalog value = none ∧ argumentMismatches catalog value = [] := by
        intro i demand value hplace
        have hnil := h _ (List.mem_of_getElem? (asks_iff.mp hplace))
        simpa [placeMismatches] using hnil
      constructor
      · intro i demand value hplace
        exact (Demand.mismatch?_eq_none_iff ..).mp (hplaces hplace).1
      · intro i demand value hplace
        exact (hvalue hplace).mp (hplaces hplace).2
    · rintro ⟨haccepts, hvalues⟩ place hmem
      obtain ⟨i, hi⟩ := List.getElem?_of_mem hmem
      have hplace := asks_iff.mpr hi
      rw [placeMismatches, (Demand.mismatch?_eq_none_iff ..).mpr (haccepts _ _ _ hplace),
        (hvalue hplace).mpr (hvalues _ _ _ hplace)]
      rfl

/-- Nothing is wrong with exactly the well-typed fragments of a suitable type. -/
theorem mismatches_eq_nil_iff {fragment : Fragment} {expected : String} :
  mismatches catalog fragment expected = []
    ↔ isAssignable (inferType catalog fragment) expected = true ∧ WellTyped catalog fragment
  := by
  rw [mismatches, List.append_eq_nil_iff, argumentMismatches_eq_nil_iff]
  split <;> simp_all

/-! ### Positions in order -/

/-- The list holds the positions that are violated with their mismatches, in pre-order: a
position comes before those below it, and these before those to the right of it. -/
structure Lists (violated : List Nat → Mismatch → Prop) (entries : List (List Nat × Mismatch)) :
    Prop where
  ordered : entries.Pairwise (·.1 < ·.1)
  mem_iff : ∀ position mismatch, (position, mismatch) ∈ entries ↔ violated position mismatch

/-- A mismatch of one's own comes before all those below. -/
theorem Lists.own {violated : List Nat → Mismatch → Prop} {entries : List (List Nat × Mismatch)}
    (h : Lists violated entries) (hne : ∀ mismatch, ¬ violated [] mismatch)
    (own : Option Mismatch) :
  Lists (fun position mismatch =>
      position = [] ∧ own = some mismatch ∨ violated position mismatch)
    (own.toList.map ([], ·) ++ entries)
  := by
  constructor
  · rw [List.pairwise_append]
    refine ⟨?_, h.ordered, ?_⟩
    · cases own with
      | none => exact .nil
      | some mismatch => exact List.pairwise_singleton ..
    · rintro first hfirst ⟨position, mismatch⟩ hentry
      obtain ⟨_, -, rfl⟩ := List.mem_map.mp hfirst
      cases position with
      | nil => exact absurd ((h.mem_iff _ _).mp hentry) (hne mismatch)
      | cons i position => exact List.nil_lt_cons i position
  · intro position mismatch
    rw [List.mem_append, h.mem_iff]
    cases own <;> simp [eq_comm]

/-- The place or a position below it has the mismatch. -/
def ViolatesPlace (catalog : Catalog) (place : Demand × Fragment) (position : List Nat)
    (mismatch : Mismatch) : Prop :=
  position = [] ∧ place.1.mismatch? catalog place.2 = some mismatch
    ∨ Violates catalog place.2 position mismatch

/-- One of the places, which are numbered from `start` on, or a position below it has the
mismatch. -/
def ViolatesAmong (catalog : Catalog) (start : Nat) (placed : List (Demand × Fragment))
    (position : List Nat) (mismatch : Mismatch) : Prop :=
  ∃ i place rest, placed[i]? = some place ∧ position = (start + i) :: rest
    ∧ ViolatesPlace catalog place rest mismatch

theorem violates_iff {fragment : Fragment} {position : List Nat} {mismatch : Mismatch} :
  Violates catalog fragment position mismatch
    ↔ ViolatesAmong catalog 0 (places catalog fragment) position mismatch
  := by
  constructor
  · intro h
    cases h with
    | here hplace hmismatch =>
      exact ⟨_, _, [], asks_iff.mp hplace, by rw [Nat.zero_add], .inl ⟨rfl, hmismatch⟩⟩
    | inner hplace hvalue =>
      exact ⟨_, _, _, asks_iff.mp hplace, by rw [Nat.zero_add], .inr hvalue⟩
  · rintro ⟨i, ⟨demand, value⟩, rest, hplace, rfl, ⟨rfl, hmismatch⟩ | hvalue⟩
    · rw [Nat.zero_add]
      exact .here (asks_iff.mpr hplace) hmismatch
    · rw [Nat.zero_add]
      exact .inner (asks_iff.mpr hplace) hvalue

theorem violatesAmong_cons {start : Nat} {place : Demand × Fragment}
    {placed : List (Demand × Fragment)} {position : List Nat} {mismatch : Mismatch} :
  ViolatesAmong catalog start (place :: placed) position mismatch
    ↔ (∃ rest, position = start :: rest ∧ ViolatesPlace catalog place rest mismatch)
      ∨ ViolatesAmong catalog (start + 1) placed position mismatch
  := by
  constructor
  · rintro ⟨i, found, rest, hfound, rfl, h⟩
    cases i with
    | zero =>
      cases hfound
      exact .inl ⟨rest, rfl, h⟩
    | succ i => exact .inr ⟨i, found, rest, hfound, by rw [Nat.add_right_comm, Nat.add_assoc], h⟩
  · rintro (⟨rest, rfl, h⟩ | ⟨i, found, rest, hfound, rfl, h⟩)
    · exact ⟨0, place, rest, rfl, rfl, h⟩
    · exact ⟨i + 1, found, rest, hfound, by rw [Nat.add_right_comm, Nat.add_assoc], h⟩

/-- The listings of places, one after the other, list what all of them hold. -/
theorem exists_lists_placed {placed : List (Demand × Fragment)}
    (h : ∀ place ∈ placed, ∃ entries, Lists (ViolatesPlace catalog place) entries
      ∧ entries.map (·.2) = placeMismatches catalog place) (start : Nat) :
  ∃ entries, Lists (ViolatesAmong catalog start placed) entries
    ∧ entries.map (·.2) = placed.flatMap (placeMismatches catalog)
  := by
  induction placed generalizing start with
  | nil => exact ⟨[], ⟨.nil, by simp [ViolatesAmong]⟩, rfl⟩
  | cons place placed ih =>
    obtain ⟨hplace, hplaced⟩ := List.forall_mem_cons.mp h
    obtain ⟨first, hfirst, hfirstEq⟩ := hplace
    obtain ⟨others, hothers, hothersEq⟩ := ih hplaced (start + 1)
    refine ⟨first.map (fun entry => (start :: entry.1, entry.2)) ++ others, ⟨?_, ?_⟩, ?_⟩
    · rw [List.pairwise_append, List.pairwise_map]
      refine ⟨hfirst.ordered.imp fun hlt => List.cons_lt_cons_iff.mpr (.inr ⟨rfl, hlt⟩),
        hothers.ordered, ?_⟩
      rintro left hleft ⟨position, mismatch⟩ hright
      obtain ⟨entry, -, rfl⟩ := List.mem_map.mp hleft
      obtain ⟨i, -, rest, -, rfl, -⟩ := (hothers.mem_iff _ _).mp hright
      exact List.cons_lt_cons_iff.mpr (.inl (by omega))
    · intro position mismatch
      rw [List.mem_append, hothers.mem_iff, violatesAmong_cons, List.mem_map]
      simp [← hfirst.mem_iff, eq_comm, and_comm]
    · rw [List.map_append, List.map_map, hothersEq, List.flatMap_cons, ← hfirstEq]
      rfl

/-- The mismatches within a fragment are listed with their positions. -/
theorem exists_lists_violates (fragment : Fragment) :
  ∃ entries, Lists (Violates catalog fragment) entries
    ∧ entries.map (·.2) = argumentMismatches catalog fragment
  := by
  induction hsize : sizeOf fragment using Nat.strongRecOn generalizing fragment with
  | ind n ih =>
    have hplaces : ∀ place ∈ places catalog fragment, ∃ entries,
        Lists (ViolatesPlace catalog place) entries
          ∧ entries.map (·.2) = placeMismatches catalog place := by
      rintro ⟨demand, value⟩ hmem
      obtain ⟨i, hi⟩ := List.getElem?_of_mem hmem
      have hlt := (asks_iff.mpr hi).sizeOf_lt
      obtain ⟨entries, hentries, heq⟩ := ih _ (hsize ▸ hlt) value rfl
      refine ⟨_, hentries.own (by rintro mismatch ⟨⟩) (demand.mismatch? catalog value), ?_⟩
      rw [List.map_append, List.map_map, heq]
      exact congrArg (· ++ _) (List.map_id _)
    obtain ⟨entries, hentries, heq⟩ := exists_lists_placed hplaces 0
    refine ⟨entries, ⟨hentries.ordered, fun position mismatch => ?_⟩, ?_⟩
    · rw [hentries.mem_iff, violates_iff]
    · rw [heq, argumentMismatches_eq_flatMap]

/-! ### Checking a fragment -/

/-- The mismatches of a fragment are listed with their positions. -/
theorem exists_lists_fails (fragment : Fragment) (expected : String) :
  ∃ entries, Lists (Fails catalog fragment expected) entries
    ∧ entries.map (·.2) = mismatches catalog fragment expected
  := by
  obtain ⟨entries, hentries, heq⟩ := @exists_lists_violates catalog fragment
  let own := if isAssignable (inferType catalog fragment) expected then none
    else some (Mismatch.result expected (inferType catalog fragment))
  have hall := hentries.own (by rintro mismatch ⟨⟩) own
  refine ⟨_, ⟨hall.ordered, fun position mismatch => ?_⟩, ?_⟩
  · rw [hall.mem_iff]
    constructor
    · rintro (⟨rfl, hown⟩ | h)
      · simp only [own, Option.ite_none_left_eq_some, Option.some.injEq] at hown
        obtain ⟨hactual, rfl⟩ := hown
        exact .result (Bool.eq_false_iff.mpr hactual)
      · exact .within h
    · rintro (hactual | h)
      · exact .inl ⟨rfl, by simp [own, hactual]⟩
      · exact .inr h
  · rw [mismatches, List.map_append, ← heq]
    congr 1
    simp only [own]
    split <;> rfl

end TriggerLang
