import TriggerLang.Fragment.Equality
import TriggerLang.Parse.Line
import TriggerLang.Proofs.Grammar.Completeness
import TriggerLang.Proofs.Grammar.Soundness
import TriggerLang.Proofs.Render.Calls

/-!
# Rendering what has been parsed

A fragment that a line stands for is rendered as a text that stands for the same fragment.
The fragment is built along the derivation of the line, and at every step what is built of
fragments that are printed as themselves is printed as itself again, up to the label that
the script's own entity gets as an argument.
-/

namespace TriggerLang

/-- The catalog leaves alone what calls are written with: no function is called like the
built-in ones for calculations and variables, and no argument hides the function. -/
structure Catalog.Writable (catalog : Catalog) : Prop where
  noCalculate : catalog.get? calculateFunction = none
  noVariable : catalog.get? variableFunction = none
  noFunctionField : ∀ entry ∈ catalog.functions, ∀ p ∈ entry.2.parameters, p.field ≠ "function"

namespace Catalog.Writable

variable {catalog : Catalog} (h : catalog.Writable) {name : String} {signature : Signature}
  (hfunction : catalog.get? name = some signature)

include h hfunction

theorem ne_calculate :
  name ≠ calculateFunction
  := by
  rintro rfl
  rw [h.noCalculate] at hfunction
  cases hfunction

theorem ne_variable :
  name ≠ variableFunction
  := by
  rintro rfl
  rw [h.noVariable] at hfunction
  cases hfunction

theorem field_ne_function {p : Parameter} (hp : p ∈ signature.parameters) :
  p.field ≠ "function"
  := h.noFunctionField _ (Table.mem_of_lookup hfunction) p hp

end Catalog.Writable

/-- The terminal is a word that is written as itself, or no word at all. -/
def Vocabulary.Admits (v : Vocabulary) (t : Terminal) : Prop :=
  t.kind = .identifier → Text.IsName t.text ∧ v.literals.lookup t.text = none

namespace Grammar

/-- What is built of a phrase makes the round trip. -/
def Phrase.RoundTrips (v : Vocabulary) (scope : Parse.Scope) : Phrase → Prop
  | .value _ f => Grammar.RoundTrips v scope f
  | .arguments fs => ∀ f ∈ fs, Grammar.RoundTrips v scope f

variable {v : Vocabulary} {scope : Parse.Scope}

theorem functionName?_of_isPrimitive {f : Fragment} (h : f.isPrimitive = true) :
  f.functionName? = none
  := by
  cases f <;> first | rfl | cases h

/-- A primitive makes the round trip as itself. -/
theorem RoundTrips.of_isPrimitive {f : Fragment} (hprimitive : f.isPrimitive = true)
    (h : f.FiniteFloats → Prints v scope f f) :
  RoundTrips v scope f
  := by
  apply RoundTrips.of_prints _ h
  simp [functionName?_of_isPrimitive hprimitive]

/-- Without a label the round trip leads back to the fragment. -/
theorem RoundTrips.prints {f : Fragment} (h : RoundTrips v scope f) (hfinite : f.FiniteFloats) :
  Prints v scope f f
  := by
  obtain ⟨g, hprints, rfl⟩ := h none hfinite
  exact hprints

theorem functionName?_apply (catalog : Catalog) (op : Operator) (left right : Fragment) :
  (op.apply catalog left right).functionName? ≠ some thisEntityFunction
  := by
  obtain ⟨operandType, heq⟩ | heq := op.apply_eq_or catalog left right
  · simp [heq, Fragment.functionName?, Fragment.get?]
  · simp [heq, Operator.calculation, Fragment.functionName?, Fragment.get?, calculateFunction,
      thisEntityFunction]

theorem RoundTrips.apply {left right : Fragment} (op : Operator)
    (hleft : RoundTrips v scope left) (hright : RoundTrips v scope right) :
  RoundTrips v scope (op.apply scope.catalog left right)
  := by
  apply RoundTrips.of_prints (functionName?_apply _ _ _ _)
  intro hfinite
  obtain ⟨hl, hr⟩ := hfinite.of_apply
  exact (hleft.prints hl).apply op (hright.prints hr)

theorem RoundTrips.negate {f : Fragment} (h : RoundTrips v scope f) :
  RoundTrips v scope (negate f)
  := by
  cases f with
  | integer n => exact .of_isPrimitive rfl fun _ => .integer (-n)
  | float x => exact .of_isPrimitive rfl fun hfinite => .float hfinite
  | _ =>
    have hone : RoundTrips v scope (.integer (-1)) := .of_isPrimitive rfl fun _ => .integer (-1)
    exact hone.apply .multiply h

/-- A function that is called by an admitted name can be called by it. -/
theorem Callable.of_admits (hcatalog : scope.catalog.Writable) {name : Terminal}
    {signature : Signature} (hadmits : v.Admits name) (hname : name.kind = .identifier)
    (hword : ¬ isKeyword name.word) (hfunction : scope.catalog.get? name.word = some signature) :
  Callable v scope signature
  := by
  obtain ⟨hshape, hliteral⟩ := hadmits hname
  have hkey : signature.key = name.word := scope.catalog.key_of_get? hfunction
  have htext : signature.key.toList = name.text := by rw [hkey, Terminal.word, String.toList_ofList]
  exact {
    function := hkey ▸ hfunction
    isName := htext ▸ hshape
    literal := htext ▸ hliteral
    notKeyword := hkey ▸ hword
    ne_calculate := hkey ▸ hcatalog.ne_calculate hfunction
    ne_variable := hkey ▸ hcatalog.ne_variable hfunction
    field := fun _ => hcatalog.field_ne_function hfunction }

/-- A call of a function of the catalog calls it by its name. -/
theorem functionName?_callOf (hcatalog : scope.catalog.Writable) {name : String}
    {signature : Signature} {fs : List Fragment}
    (hfunction : scope.catalog.get? name = some signature)
    (harity : fs.length = signature.parameters.length) :
  (callOf signature fs).functionName? = some name
  := by
  have hentries := function_notMem_entries
    (fun p hp => hcatalog.field_ne_function hfunction hp) harity none
  rw [labelEntries, List.append_nil] at hentries
  rw [callOf, fieldsOf_eq, Fragment.functionName?, Fragment.get?, lookup_function hentries,
    Catalog.key_of_get? hfunction]

/-- What a line is read as makes the round trip, at every step of its derivation. -/
theorem Derives.roundTrips (hcatalog : scope.catalog.Writable) {phrase : Phrase}
    {ts : List Terminal} (h : Derives scope phrase ts) (hadmits : ∀ t ∈ ts, v.Admits t) :
  phrase.RoundTrips v scope
  := by
  induction h with
  | loosen _ _ ih => exact ih hadmits
  | @binary op left right ts us t _ _ _ ihl ihr =>
    have hl := ihl fun t ht => hadmits t (by simp [ht])
    have hr := ihr fun t ht => hadmits t (by simp [ht])
    exact hl.apply op hr
  | negative _ _ ih => exact RoundTrips.negate (ih fun t ht => hadmits t (by simp [ht]))
  | integer => exact .of_isPrimitive rfl fun _ => .integer _
  | float => exact .of_isPrimitive rfl fun hfinite => .float hfinite
  | string => exact .of_isPrimitive rfl fun _ => .string _
  | trueWord => exact .of_isPrimitive rfl fun _ => .boolean true
  | falseWord => exact .of_isPrimitive rfl fun _ => .boolean false
  | group _ _ _ ih => exact ih fun t ht => hadmits t (by simp [ht])
  | @call signature fs ts name opening closing hname hword hfunction harity _ _ hargs ih =>
    have hcallable := Callable.of_admits hcatalog (hadmits name (by simp)) hname hword hfunction
    have hne : signature.parameters ≠ [] := by
      intro hnil
      rw [hnil] at harity
      exact hargs.arguments_ne_nil (List.eq_nil_of_length_eq_zero harity)
    exact hcallable.roundTrips hne harity (ih fun t ht => hadmits t (by simp [ht]))
  | @emptyCall signature name opening closing hname hword hfunction harity =>
    have hcallable := Callable.of_admits hcatalog (hadmits name (by simp)) hname hword hfunction
    exact hcallable.roundTrips_constant harity
  | @constant signature name hname hword hfunction harity =>
    have hcallable := Callable.of_admits hcatalog (hadmits name (by simp)) hname hword hfunction
    exact hcallable.roundTrips_constant harity
  | @declared name dataType hname hword hfunction htype =>
    obtain ⟨hshape, hliteral⟩ := hadmits name (by simp) hname
    have htext : name.word.toList = name.text := String.toList_ofList
    exact .declared hfunction htype (htext ▸ hshape) (htext ▸ hliteral) hword
  | first _ ih =>
    intro f hf
    rw [List.mem_singleton.mp hf]
    exact ih hadmits
  | further _ _ _ ihs ih =>
    intro f hf
    rcases List.mem_append.mp hf with hf | hf
    · exact ihs (fun t ht => hadmits t (by simp [ht])) f hf
    · rw [List.mem_singleton.mp hf]
      exact ih fun t ht => hadmits t (by simp [ht])

/-! ### Lines -/

/-- The trigger that a line declares. -/
def triggerOf (name : String) : Fragment :=
  .mapping [("type", .string name)]

/-- A trigger is rendered as its sign and its name. -/
theorem render_triggerOf (renderer : Renderer) (name : String) :
  renderer.render (triggerOf name) = .ok ('@' :: name.toList)
  := by
  have hrendered : renderer.rendered (triggerOf name) = .ok (.atom ('@' :: name.toList)) := by
    rw [triggerOf, Renderer.rendered]
    rfl
  rw [Renderer.render, hrendered]
  rfl

/-- The terminals of a trigger are its sign and its name. -/
theorem means_trigger {literals : List (List Char × List Char)} {w : List Char}
    (hw : Text.IsName w) (hliteral : literals.lookup w = none) :
  Means literals ('@' :: w) [.ofSymbol .at, ⟨.identifier, w, false⟩]
  := (Means.word hw hliteral).symbol_append (s := .at) rfl

/-- What a text without bare words means is what its line is read as. -/
theorem parseLine_of_means {text : List Char} {ts : List Terminal} {f : Fragment}
    (hmeans : Means [] text ts) (h : DerivesLine scope f ts) :
  parseLine scope text = .ok f
  := by
  apply parseLine_of_derivesLine
  rwa [← meaning_nil, hmeans.meaning_eq]

/-- A fragment that a line stands for is rendered as a text that stands for the same
fragment. -/
theorem parseLine_render {source : List Char} {f : Fragment} (hcatalog : scope.catalog.Writable)
    (hparse : parseLine scope source = .ok f) (hfinite : f.FiniteFloats) :
  ∃ text, (⟨scope.catalog, []⟩ : Renderer).render f = .ok text
    ∧ parseLine scope text = .ok f
  := by
  have hname : ∀ t ∈ (significantTokens source).map Token.terminal, t.kind = .identifier →
      Text.IsName t.text := by
    intro t ht hkind
    rw [map_terminal_significantTokens] at ht
    exact isName_of_mem_terminals (List.mem_filter.mp ht).1 hkind
  have hline := derivesLine_of_parseLine hparse
  generalize (significantTokens source).map Token.terminal = ts at hname hline
  cases hline with
  | @trigger sign name hsign hkind hknown =>
    have hw := hname name (by simp) hkind
    have htext : name.word.toList = name.text := String.toList_ofList
    refine ⟨'@' :: name.text, htext ▸ render_triggerOf _ name.word, ?_⟩
    have hread := @DerivesLine.trigger scope (.ofSymbol .at) ⟨.identifier, name.text, false⟩
      rfl rfl hknown
    exact parseLine_of_means (means_trigger hw rfl) hread
  | expression hderives =>
    have hadmits : ∀ t ∈ ts, Vocabulary.plain.Admits t :=
      fun t ht hkind => ⟨hname t ht hkind, rfl⟩
    obtain ⟨r, hrendered, hwritten⟩ := (hderives.roundTrips hcatalog hadmits).prints hfinite
    obtain ⟨us, level, hmeans, hread, -⟩ := hwritten.derives
    refine ⟨r.text, ?_, ?_⟩
    · rw [Renderer.render]
      exact congrArg (Except.map Rendered.text) hrendered
    · exact parseLine_of_means hmeans (.expression (.loosen (by cases level <;> decide) hread))

/-- The fragment of an action with the script's own entity and a product of two negatives. -/
def negatedHealth : Fragment :=
  .mapping [("function", .string "setHealth"),
    ("entity", .mapping [("function", .string "thisEntity"), ("_dataType", .string "unit")]),
    ("value", Operator.multiply.calculation
      (negate (Operator.add.calculation (.float (readPositional ['1'] ['5'])) (.integer 2)))
      (.integer (-3)))]

/-- An action with the script's own entity and a product of two negatives is rendered so that
it is read back. -/
theorem parseLine_render_negatedHealth :
  parseLine {} "setHealth(thisEntity, -(1.5 + 2) * -3)".toList = .ok negatedHealth
    ∧ ∃ text, (⟨.builtin, []⟩ : Renderer).render negatedHealth = .ok text
      ∧ parseLine {} text = .ok negatedHealth
  := by
  have hcatalog : Catalog.builtin.Writable := ⟨by decide, by decide, by decide⟩
  have hparse : parseLine {} "setHealth(thisEntity, -(1.5 + 2) * -3)".toList
      = .ok negatedHealth := by
    decide +kernel
  have hfinite : (readPositional ['1'] ['5']).isFinite = true := by decide +kernel
  have hfloats : negatedHealth.FiniteFloats := by
    simp [negatedHealth, Operator.calculation, negate, Fragment.FiniteFloats,
      Fragment.FiniteFloatsOfFields, Fragment.FiniteFloatsOfItems, hfinite]
  exact ⟨hparse, parseLine_render hcatalog hparse hfloats⟩

end Grammar

end TriggerLang
