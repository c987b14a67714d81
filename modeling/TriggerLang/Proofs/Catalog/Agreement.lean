import TriggerLang.Proofs.Render.Calls
import TriggerLang.Typing.Mismatch

/-!
# Agreeing catalogs

All that is asked of a catalog about a fragment are the signatures of the functions that the
fragment calls.  If two catalogs agree about these, they give the fragment the same type, find
the same mismatches in it and render it as the same text, whatever else they list.
-/

namespace TriggerLang

namespace Fragment

variable {p : String → Prop}

mutual

/-- All functions that are called in the fragment are such that `p` holds. -/
def CallsOnly (p : String → Prop) : Fragment → Prop
  | .list items => CallsOnlyInItems p items
  | .mapping fields =>
    (∀ name, fields.lookup "function" = some (.string name) → p name) ∧ CallsOnlyInFields p fields
  | _ => True

/-- All functions that are called in the fragments are such that `p` holds. -/
def CallsOnlyInItems (p : String → Prop) : List Fragment → Prop
  | [] => True
  | item :: rest => item.CallsOnly p ∧ CallsOnlyInItems p rest

/-- All functions that are called in the fields are such that `p` holds. -/
def CallsOnlyInFields (p : String → Prop) : Fields → Prop
  | [] => True
  | (_, value) :: rest => value.CallsOnly p ∧ CallsOnlyInFields p rest

end

theorem callsOnlyInItems_iff {items : List Fragment} :
  CallsOnlyInItems p items ↔ ∀ item ∈ items, item.CallsOnly p
  := by
  induction items with
  | nil => simp [CallsOnlyInItems]
  | cons item rest ih => simp [CallsOnlyInItems, ih]

theorem callsOnlyInFields_iff {fields : Fields} :
  CallsOnlyInFields p fields ↔ ∀ entry ∈ fields, entry.2.CallsOnly p
  := by
  induction fields with
  | nil => simp [CallsOnlyInFields]
  | cons entry rest ih =>
    obtain ⟨field, value⟩ := entry
    simp [CallsOnlyInFields, ih]

namespace CallsOnly

theorem lookup {fields : Fields} (h : (mapping fields).CallsOnly p) {field : String}
    {value : Fragment} (hvalue : fields.lookup field = some value) :
  value.CallsOnly p
  := callsOnlyInFields_iff.mp h.2 _ (Table.mem_of_lookup hvalue)

theorem of_mem {items : List Fragment} (h : (list items).CallsOnly p) {item : Fragment}
    (hitem : item ∈ items) :
  item.CallsOnly p
  := callsOnlyInItems_iff.mp h item hitem

theorem functionName? {f : Fragment} (h : f.CallsOnly p) {name : String}
    (hname : f.functionName? = some name) :
  p name
  := by
  cases f with
  | mapping fields =>
    apply h.1
    rw [Fragment.functionName?] at hname
    split at hname
    · rename_i found hfound
      cases hname
      exact hfound
    · cases hname
  | _ => cases hname

end CallsOnly

end Fragment

/-! ### What is asked of a catalog -/

/-- The catalogs say the same about a function. -/
def Catalog.AgreesOn (catalog other : Catalog) (name : String) : Prop :=
  catalog.get? name = other.get? name

section

variable {catalog other : Catalog}

/-- Catalogs that agree about what a fragment calls give it the same type. -/
theorem inferType_congr {f : Fragment} (h : f.CallsOnly (catalog.AgreesOn other)) :
  inferType catalog f = inferType other f
  := by
  have hcall : ∀ name, f.functionName? = some name →
      callType catalog name f = callType other name f := by
    intro name hname
    have hget : catalog.get? name = other.get? name := h.functionName? hname
    rw [callType, callType, hget]
  rw [inferType.eq_def, inferType.eq_def]
  cases hname : f.functionName? with
  | none => rfl
  | some name => simp only [hcall name hname]

theorem operandMismatch_congr {f : Fragment} (h : f.CallsOnly (catalog.AgreesOn other))
    (connective : Option String) :
  operandMismatch catalog connective f = operandMismatch other connective f
  := by
  rw [operandMismatch.eq_def, operandMismatch.eq_def, inferType_congr h]

theorem argumentMismatch_congr {f : Fragment} (h : f.CallsOnly (catalog.AgreesOn other))
    (owner field expected : String) :
  argumentMismatch catalog owner field f expected = argumentMismatch other owner field f expected
  := by
  rw [argumentMismatch, argumentMismatch, inferType_congr h]

mutual

/-- Catalogs that agree about what a fragment calls find the same mismatches in it. -/
theorem argumentMismatches_congr (f : Fragment) (h : f.CallsOnly (catalog.AgreesOn other)) :
  argumentMismatches catalog f = argumentMismatches other f
  := by
  cases f with
  | list parts =>
    rw [argumentMismatches.eq_def, argumentMismatches.eq_def]
    cases parts with
    | nil => rfl
    | cons header operands =>
      have hoperands : ∀ operand ∈ operands, operand.CallsOnly (catalog.AgreesOn other) :=
        fun operand hoperand => h.of_mem (List.mem_cons_of_mem _ hoperand)
      exact operandMismatches_congr operands hoperands fun operand hoperand =>
        operandMismatch_congr (hoperands operand hoperand) _
  | mapping fields =>
    rw [argumentMismatches.eq_def, argumentMismatches.eq_def]
    dsimp only
    split
    · rfl
    · rename_i name hname
      have hget : catalog.get? name = other.get? name := h.functionName? hname
      split
      · split
        · rename_i header operands hitems
          have hoperands : ∀ operand ∈ operands, operand.CallsOnly (catalog.AgreesOn other) :=
            fun operand hoperand => (h.lookup hitems).of_mem (List.mem_cons_of_mem _ hoperand)
          have := Fragment.sizeOf_lt_of_lookup hitems
          exact operandMismatches_congr operands hoperands fun operand hoperand =>
            argumentMismatch_congr (hoperands operand hoperand) _ _ _
        · rfl
      · rw [hget]
        split
        · rfl
        · congr 1
          funext parameter
          split
          · rfl
          · rename_i value hvalue
            have := Fragment.sizeOf_lt_of_lookup hvalue
            rw [argumentMismatch_congr (h.lookup hvalue),
              argumentMismatches_congr value (h.lookup hvalue)]
  | _ => rw [argumentMismatches.eq_def, argumentMismatches.eq_def]
termination_by sizeOf f
decreasing_by
  all_goals
    subst_vars
    simp only [Fragment.list.sizeOf_spec, Fragment.mapping.sizeOf_spec,
      List.cons.sizeOf_spec] at *
    omega

theorem operandMismatches_congr {own others : Fragment → List Mismatch} (operands : List Fragment)
    (h : ∀ operand ∈ operands, operand.CallsOnly (catalog.AgreesOn other))
    (hown : ∀ operand ∈ operands, own operand = others operand) :
  operandMismatches catalog own operands = operandMismatches other others operands
  := by
  cases operands with
  | nil => rw [operandMismatches, operandMismatches]
  | cons operand rest =>
    rw [operandMismatches, operandMismatches, hown operand List.mem_cons_self,
      argumentMismatches_congr operand (h operand List.mem_cons_self),
      operandMismatches_congr rest (fun f hf => h f (List.mem_cons_of_mem _ hf))
        fun f hf => hown f (List.mem_cons_of_mem _ hf)]
termination_by sizeOf operands

end

/-- Catalogs that agree about what a fragment calls check it alike. -/
theorem checkType_congr {f : Fragment} (h : f.CallsOnly (catalog.AgreesOn other))
    (source : List Char) (expected : String) :
  checkType catalog source f expected = checkType other source f expected
  := by
  rw [checkType, checkType, mismatches, mismatches, inferType_congr h,
    argumentMismatches_congr f h]

namespace Renderer

variable (bareWords : List (String × String))

mutual

/-- With catalogs that agree about what a fragment calls it is rendered alike. -/
theorem rendered_congr (f : Fragment) (h : f.CallsOnly (catalog.AgreesOn other)) :
  rendered ⟨catalog, bareWords⟩ f = rendered ⟨other, bareWords⟩ f
  := by
  rw [rendered.eq_def, rendered.eq_def]
  split
  case h_7 header left right =>
    rw [rendered_congr left (h.of_mem (by simp)), rendered_congr right (h.of_mem (by simp))]
  case h_9 fields =>
    split
    · rename_i name hname
      exact renderedCall_congr name fields (h.1 name hname) h
    all_goals rfl
  all_goals rfl
termination_by 2 * sizeOf f
decreasing_by
  all_goals
    subst_vars
    simp only [Fragment.list.sizeOf_spec, Fragment.mapping.sizeOf_spec, List.cons.sizeOf_spec]
    omega

theorem renderedCall_congr (name : String) (fields : Fragment.Fields)
    (hname : catalog.AgreesOn other name)
    (h : (Fragment.mapping fields).CallsOnly (catalog.AgreesOn other)) :
  renderedCall ⟨catalog, bareWords⟩ name fields = renderedCall ⟨other, bareWords⟩ name fields
  := by
  by_cases hcalculate : name = calculateFunction
  · rw [renderedCall.eq_def, renderedCall.eq_def, if_pos hcalculate, if_pos hcalculate]
    split
    · rename_i header left right hitems
      have hparts := h.lookup hitems
      have := Fragment.sizeOf_lt_of_lookup hitems
      rw [rendered_congr left (hparts.of_mem (by simp)),
        rendered_congr right (hparts.of_mem (by simp))]
    · rfl
  by_cases hvariable : name = variableFunction
  · rw [renderedCall, renderedCall, if_neg hcalculate, if_pos hvariable, if_neg hcalculate,
      if_pos hvariable]
  have hget : catalog.get? name = other.get? name := hname
  cases hother : other.get? name with
  | none =>
    rw [renderedCall, renderedCall, if_neg hcalculate, if_neg hvariable, if_neg hcalculate,
      if_neg hvariable]
    simp only [hget, hother]
    rw [renderedFields_congr fields h.2]
  | some signature =>
    by_cases hnil : signature.parameters = []
    · rw [renderedCall_constant _ (hget.trans hother) hcalculate hvariable hnil,
        renderedCall_constant _ hother hcalculate hvariable hnil]
    · rw [renderedCall_parameters _ (hget.trans hother) hcalculate hvariable hnil,
        renderedCall_parameters _ hother hcalculate hvariable hnil]
      congr 1
      apply mapM_congr
      intro parameter _
      rw [argumentText, argumentText]
      split
      · rename_i value hvalue
        have := Fragment.sizeOf_lt_of_lookup hvalue
        rw [rendered_congr value (h.lookup hvalue)]
      · rfl
termination_by 2 * sizeOf fields + 1
decreasing_by
  · simp only [Fragment.list.sizeOf_spec, List.cons.sizeOf_spec] at this
    omega
  · simp only [Fragment.list.sizeOf_spec, List.cons.sizeOf_spec] at this
    omega
  · omega
  · omega

theorem renderedFields_congr :
    ∀ fields : Fragment.Fields, Fragment.CallsOnlyInFields (catalog.AgreesOn other) fields →
      renderedFields ⟨catalog, bareWords⟩ fields = renderedFields ⟨other, bareWords⟩ fields
  | [], _ => by
      rw [renderedFields, renderedFields]
  | (field, value) :: rest, h => by
      rw [renderedFields, renderedFields, rendered_congr value h.1, renderedFields_congr rest h.2]
termination_by fields => 2 * sizeOf fields
decreasing_by
  all_goals
    simp only [List.cons.sizeOf_spec, Prod.mk.sizeOf_spec]
    omega

end

/-- With catalogs that agree about what a fragment calls it is rendered as the same text. -/
theorem render_congr {f : Fragment} (h : f.CallsOnly (catalog.AgreesOn other)) :
  render ⟨catalog, bareWords⟩ f = render ⟨other, bareWords⟩ f
  := by
  rw [render, render, rendered_congr bareWords f h]

end Renderer

end

end TriggerLang
