import TriggerLang.Proofs.Render.RoundTrip

/-!
# The shapes of expressions

An expression stands for a primitive value, for a condition, or for a call: of a function of the
catalog, of the one that calculations are written with, or of the one that reads a variable.  It
never stands for a trigger, and there is no sign of a trigger in it.
-/

namespace TriggerLang.Grammar

/-- The fragment has one of the shapes of expressions. -/
inductive Shape (catalog : Catalog) : Fragment → Prop
  | primitive {f : Fragment} (h : f.isPrimitive = true) : Shape catalog f
  | condition (op : Operator) (operandType : String) (left right : Fragment) :
      Shape catalog (.list [op.header operandType, left, right])
  | call {f : Fragment} {name : String} (hname : f.functionName? = some name)
      (hknown : catalog.contains name = true ∨ name ∈ [calculateFunction, variableFunction]) :
      Shape catalog f

/-- No expression calls a function that the catalog does not have. -/
theorem Shape.functionName?_ne {catalog : Catalog} {f : Fragment} (h : Shape catalog f)
    {name : String} (hunknown : catalog.contains name = false)
    (hname : name ∉ [calculateFunction, variableFunction]) :
  f.functionName? ≠ some name
  := by
  cases h with
  | primitive hprimitive =>
    cases f with
    | mapping => cases hprimitive
    | _ => nofun
  | condition => nofun
  | call hfunction hknown =>
    rw [hfunction]
    rintro ⟨⟩
    rcases hknown with hknown | hknown
    · simp [hunknown] at hknown
    · exact hname hknown

variable {scope : Parse.Scope}

theorem shape_calculation (op : Operator) (left right : Fragment) :
  Shape scope.catalog (op.calculation left right)
  := .call rfl (.inr (by simp))

theorem shape_apply (op : Operator) (left right : Fragment) :
  Shape scope.catalog (op.apply scope.catalog left right)
  := by
  obtain ⟨operandType, heq⟩ | heq := op.apply_eq_or scope.catalog left right
  · rw [heq]
    exact .condition op operandType left right
  · rw [heq]
    exact shape_calculation op left right

theorem shape_negate (f : Fragment) :
  Shape scope.catalog (negate f)
  := by
  cases f with
  | integer | float => exact .primitive rfl
  | _ => exact shape_calculation .multiply _ _

theorem shape_callOf (hcatalog : scope.catalog.Writable) {name : String} {signature : Signature}
    {fs : List Fragment} (hfunction : scope.catalog.get? name = some signature)
    (harity : fs.length = signature.parameters.length) :
  Shape scope.catalog (callOf signature fs)
  := by
  apply Shape.call (functionName?_callOf hcatalog hfunction harity)
  left
  rw [Catalog.contains, hfunction]
  rfl

/-- What is derived has the shape of an expression. -/
theorem Derives.shape (hcatalog : scope.catalog.Writable) {phrase : Phrase} {ts : List Terminal}
    (h : Derives scope phrase ts) :
  phrase.All (Shape scope.catalog)
  := by
  induction h with
  | loosen _ _ ih => exact ih
  | binary => exact shape_apply _ _ _
  | negative => exact shape_negate _
  | group _ _ _ ih => exact ih
  | call _ _ hfunction harity => exact shape_callOf hcatalog hfunction harity
  | emptyCall _ _ hfunction harity | constant _ _ hfunction harity =>
    exact shape_callOf hcatalog hfunction (by simp [harity])
  | declared => exact .call rfl (.inr (by simp))
  | first _ ih =>
    intro f hf
    rw [List.mem_singleton.mp hf]
    exact ih
  | further _ _ _ ihs ih =>
    intro f hf
    rcases List.mem_append.mp hf with hf | hf
    · exact ihs f hf
    · rw [List.mem_singleton.mp hf]
      exact ih
  | integer | float | string | trueWord | falseWord => exact .primitive rfl

/-- There is no sign of a trigger in an expression. -/
theorem Derives.kind_ne_at {phrase : Phrase} {ts : List Terminal} (h : Derives scope phrase ts) :
  ∀ t ∈ ts, t.kind ≠ .symbol .at
  := by
  induction h with
  | loosen _ _ ih => exact ih
  | @binary _ _ _ _ _ t hop _ _ ihleft ihright =>
    have hsign : t.kind ≠ .symbol .at := by
      intro hsign
      rw [Terminal.operator?, hsign] at hop
      cases hop
    simpa [or_imp, forall_and] using ⟨ihleft, hsign, ihright⟩
  | negative hminus _ ih => simpa [hminus] using ih
  | group hopen hclose _ ih => simpa [hopen, hclose, or_imp, forall_and] using ih
  | call hname _ _ _ hopen hclose _ ih =>
    simpa [hname, hopen, hclose, or_imp, forall_and] using ih
  | emptyCall hname _ _ _ hopen hclose => simp [hname, hopen, hclose]
  | first _ ih => exact ih
  | further hcomma _ _ ihs ih => simpa [hcomma, or_imp, forall_and] using ⟨ihs, ih⟩
  | constant hkind | declared hkind | integer hkind | float hkind | string hkind
  | trueWord hkind | falseWord hkind => simp [hkind]

end TriggerLang.Grammar
