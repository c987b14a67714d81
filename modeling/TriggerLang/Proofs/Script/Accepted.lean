import TriggerLang.Proofs.Render.Admitted
import TriggerLang.Proofs.Render.Processed
import TriggerLang.Proofs.Script.Keyword
import TriggerLang.Proofs.Script.Vocabulary
import TriggerLang.Script.Build

/-!
# Accepted expressions

An expression is accepted as what its line is read as, without the reserved fields.  What it
is accepted as is rendered as a text that is accepted as the same fragment, on a line of its
own or after a keyword.
-/

namespace TriggerLang

open Grammar

variable {scope : Parse.Scope} {context : Context} {expected : String}

/-- What is read as the first fragment is kept as the second one where a value of a type should
stand. -/
inductive Keeps (scope : Parse.Scope) (context : Context) (expected : String) :
    Fragment → Fragment → Prop
  | primitive {f : Fragment} (hprimitive : f.isPrimitive = true)
      (haccepts : acceptsPrimitive f expected = true) : Keeps scope context expected f f
  | processed {f : Fragment} (hprimitive : f.isPrimitive = false)
      (hmismatches : mismatches scope.catalog f expected = []) :
      Keeps scope context expected f (f.postProcess context.sideTable)

/-- The fields that documents use are not among those of what is kept, either. -/
theorem Keeps.unadorned {f p : Fragment} (hkeeps : Keeps scope context expected f p)
    (h : ∀ fields, f = .mapping fields → Fragment.Unadorned fields) :
  ∀ fields, p = .mapping fields → Fragment.Unadorned fields
  := by
  intro fields hfields
  cases hkeeps with
  | primitive => exact h fields hfields
  | processed =>
    cases f with
    | mapping before =>
      obtain ⟨processed, hstrip, hprocessed⟩ := (h before rfl).strip context.sideTable ""
      cases hstrip.symm.trans hfields
      exact hprocessed
    | list items => simp [Fragment.postProcess, Fragment.strip] at hfields
    | _ => simp [Fragment.postProcess, Fragment.strip] at hfields

theorem evaluateSource_of_ok {source : List Char} {f : Fragment}
    (h : parseLine scope source = .ok f) :
  evaluateSource (.ofScope scope) context source expected
    = if f.isPrimitive then
        ⟨some f, checkPrimitive source f expected⟩
      else
        ⟨some (f.postProcess context.sideTable), checkType scope.catalog source f expected⟩
  := by
  simp only [evaluateSource, Toolkit.ofScope, h, Except.mapError]

/-- What a text that stands for itself is accepted as. -/
theorem accepted?_evaluateSource_iff {source : List Char} {p : Fragment} :
  (evaluateSource (.ofScope scope) context source expected).accepted? = some p
    ↔ ∃ f, parseLine scope source = .ok f ∧ Keeps scope context expected f p
  := by
  constructor
  · intro h
    cases hparse : parseLine scope source with
    | error failure =>
      simp only [evaluateSource, Toolkit.ofScope, hparse, Except.mapError] at h
      cases h
    | ok f =>
      refine ⟨f, rfl, ?_⟩
      rw [evaluateSource_of_ok hparse] at h
      cases hprimitive : f.isPrimitive with
      | true =>
        rw [hprimitive, if_pos rfl, Outcome.accepted?] at h
        split at h
        · rename_i hempty
          cases h
          apply Keeps.primitive hprimitive
          rw [checkPrimitive] at hempty
          split at hempty
          · assumption
          · cases hempty
        · cases h
      | false =>
        rw [hprimitive, if_neg (by simp), Outcome.accepted?] at h
        split at h
        · rename_i hempty
          cases h
          apply Keeps.processed hprimitive
          simpa [checkType] using hempty
        · cases h
  · rintro ⟨f, hparse, hkeeps⟩
    rw [evaluateSource_of_ok hparse]
    cases hkeeps with
    | primitive hprimitive haccepts =>
      rw [if_pos hprimitive, Outcome.accepted?, checkPrimitive, if_pos haccepts]
      rfl
    | processed hprimitive hmismatches =>
      rw [if_neg (by simp [hprimitive]), Outcome.accepted?, checkType, hmismatches]
      rfl

/-- What a text in which bare words stand for strings is accepted as. -/
theorem accepted?_evaluate_iff (h : Substitution.AreProper context.substitutions)
    {source : List Char} {p : Fragment} :
  (evaluate (.ofScope scope) context source expected).accepted? = some p
    ↔ ∃ f, DerivesLine scope f (meaning (context.vocabulary h).literals source)
      ∧ Keeps scope context expected f p
  := by
  rw [evaluate, accepted?_evaluateSource_iff]
  have hmeaning := Substitution.significantTokens_applyAll h.areBareWords source
  constructor
  · rintro ⟨f, hparse, hkeeps⟩
    have hline := derivesLine_of_parseLine hparse
    rw [hmeaning] at hline
    exact ⟨f, hline, hkeeps⟩
  · rintro ⟨f, hline, hkeeps⟩
    refine ⟨f, parseLine_of_derivesLine ?_, hkeeps⟩
    rwa [hmeaning]

/-- A missing expression is not accepted. -/
theorem accepted?_evaluate_nil :
  (evaluate (.ofScope scope) context [] expected).accepted? = none
  := by
  have htokens : significantTokens [] = [] := by decide +kernel
  have hparse : ∃ failure, parseLine scope [] = .error failure := by
    rw [parseLine, htokens]
    exact ⟨_, rfl⟩
  obtain ⟨failure, hparse⟩ := hparse
  rw [evaluate, Substitution.applyAll_empty]
  simp only [evaluateSource, Toolkit.ofScope, hparse, Except.mapError]
  rfl

/-! ### Texts of accepted expressions -/

/-- The fragment is rendered as the text, which is accepted as the fragment again wherever it
is read with the same meaning. -/
structure Lasts (scope : Parse.Scope) (context : Context) (expected : String) (p : Fragment)
    (text : List Char) : Prop where
  render : ((Toolkit.ofScope scope).renderer context).render p = .ok text
  unbroken : Text.Unbroken text
  trimmed : Text.Trimmed text
  accepted : ∀ source, meaning (Substitution.literals context.substitutions) source
      = meaning (Substitution.literals context.substitutions) text →
    (evaluate (.ofScope scope) context source expected).accepted? = some p

/-- All numbers that are written in the text are finite. -/
def FiniteText (text : List Char) : Prop :=
  ∀ t ∈ terminals text, t.kind = .float → (floatValue t.text).isFinite = true

variable (hcatalog : scope.catalog.Publishable)
  (hproper : Substitution.AreProper context.substitutions) {source : List Char} {p : Fragment}

include hcatalog hproper

/-- What an expression is accepted as lasts, as a text that looks like an operand. -/
theorem Keeps.lasts {f : Fragment}
    (hderives : Derives scope (.value .expression f)
      (meaning (context.vocabulary hproper).literals source))
    (hfinite : FiniteText source) (hkeeps : Keeps scope context expected f p) :
  ∃ text, Lasts scope context expected p text ∧ Neat text
    ∧ Derives scope (.value .expression f) (meaning (context.vocabulary hproper).literals text)
  := by
  have hadmits := (context.vocabulary hproper).admits_of_derivesLine (.expression hderives)
  have hfloats : f.FiniteFloats := by
    apply hderives.finiteFloats
    intro t ht hkind
    exact hfinite t (mem_terminals_of_mem_meaning ht (by simp [hkind])) hkind
  obtain ⟨r, hrendered, hwritten⟩ :=
    (hderives.roundTrips hcatalog.toWritable hadmits).prints hfloats
  have hrender : ((Toolkit.ofScope scope).renderer context).rendered p = .ok r := by
    rw [Toolkit.renderer_ofScope]
    cases hkeeps with
    | primitive => exact hrendered
    | processed => exact ((hderives.rendersAlike hcatalog rfl).strip "").trans hrendered
  obtain ⟨ts, level, hmeans, hread, -⟩ := hwritten.derives
  have hexpression : Derives scope (.value .expression f)
      (meaning (context.vocabulary hproper).literals r.text) := by
    rw [hmeans.meaning_eq]
    exact .loosen (by cases level <;> decide) hread
  refine ⟨r.text, ⟨?_, hwritten.neat.unbroken, hwritten.neat.trimmed, ?_⟩, hwritten.neat,
    hexpression⟩
  · rw [Renderer.render, hrender]
    rfl
  · intro other hother
    have hmeaning : meaning (context.vocabulary hproper).literals other
        = meaning (context.vocabulary hproper).literals r.text := hother
    rw [accepted?_evaluate_iff hproper, hmeaning]
    exact ⟨f, .expression hexpression, hkeeps⟩

/-- What an expression is accepted as lasts, and so does a trigger in its place. -/
theorem exists_lasts
    (haccepted : (evaluate (.ofScope scope) context source expected).accepted? = some p)
    (hfinite : FiniteText source) :
  ∃ text, Lasts scope context expected p text
  := by
  obtain ⟨f, hline, hkeeps⟩ := (accepted?_evaluate_iff hproper).mp haccepted
  have hadmits := (context.vocabulary hproper).admits_of_derivesLine hline
  generalize hts : meaning (context.vocabulary hproper).literals source = ts at hline hadmits
  cases hline with
  | expression hderives =>
    obtain ⟨text, hlasts, -, -⟩ := hkeeps.lasts hcatalog hproper (hts ▸ hderives) hfinite
    exact ⟨text, hlasts⟩
  | @trigger sign name hsign hkind hknown =>
    obtain ⟨hname, hliteral⟩ := hadmits name (by simp) hkind
    have hp : p = triggerOf name.word := by
      cases hkeeps with
      | primitive hprimitive => cases hprimitive
      | processed => exact postProcess_trigger _ _
    have htext : name.word.toList = name.text := String.toList_ofList
    refine ⟨'@' :: name.text, ?_, ?_, ?_, ?_⟩
    · rw [hp, render_triggerOf, htext]
    · intro c hc
      rcases List.mem_cons.mp hc with rfl | hc
      · rfl
      · exact hname.neat.unbroken c hc
    · obtain ⟨rest, c, hrest, hc⟩ := hname.neat.trimmed.ends
      exact ⟨⟨'@', name.text, rfl, by decide⟩, ⟨'@' :: rest, c, by rw [hrest]; rfl, hc⟩⟩
    · intro other hother
      rw [accepted?_evaluate_iff hproper]
      have hmeaning : meaning (context.vocabulary hproper).literals other
          = [.ofSymbol .at, ⟨.identifier, name.text, false⟩] :=
        hother.trans (means_trigger hname hliteral).meaning_eq
      rw [hmeaning]
      have hread := @DerivesLine.trigger scope (.ofSymbol .at) ⟨.identifier, name.text, false⟩
        rfl rfl hknown
      exact ⟨_, hread, hkeeps⟩

/-! ### Actions -/

/-- An action lasts on a line of its own: its text is classified as an action again, and none of
its fields is one that documents use. -/
structure LastingAction (scope : Parse.Scope) (context : Context) (p : Fragment)
    (text : List Char) : Prop extends Lasts scope context context.defaultReturnType p text where
  classified : classifyLine text = { kind := .action, text, body := text }
  unadorned : ∀ fields, p = .mapping fields → Fragment.Unadorned fields

/-- What the line of an action is accepted as lasts on a line of its own. -/
theorem exists_lastingAction {line : List Char} (htrimmed : Text.Trimmed line)
    (hkind : (classifyLine line).kind = .action)
    (haccepted : (evaluate (.ofScope scope) context (classifyLine line).body
      context.defaultReturnType).accepted? = some p)
    (hfinite : FiniteText line) :
  ∃ text, LastingAction scope context p text
  := by
  rw [(of_classifyLine_kind_action hkind).2.2] at haccepted
  obtain ⟨f, hline, hkeeps⟩ := (accepted?_evaluate_iff hproper).mp haccepted
  have hderives := derives_of_kind_action hkind htrimmed hline
  obtain ⟨text, hlasts, hneat, hagain⟩ := hkeeps.lasts hcatalog hproper hderives hfinite
  exact ⟨text, hlasts, classifyLine_of_derives _ hneat hagain,
    hkeeps.unadorned (hderives.unadorned hcatalog)⟩

/-- What the condition of a block is accepted as lasts. -/
theorem exists_lasts_of_blockStart {line : List Char} (htrimmed : Text.Trimmed line)
    (hkind : (classifyLine line).kind = .blockStart)
    (haccepted : (evaluate (.ofScope scope) context (classifyLine line).body
      booleanType).accepted? = some p)
    (hfinite : FiniteText line) :
  ∃ text, Lasts scope context booleanType p text
  := by
  apply exists_lasts hcatalog hproper haccepted
  intro t ht
  exact hfinite t (mem_terminals_of_kind_blockStart hkind htrimmed ht)

omit hproper

/-! ### Triggers -/

/-- A trigger lasts on a line of its own, which is accepted as the trigger again. -/
structure LastingTrigger (scope : Parse.Scope) (context : Context) (p : Fragment)
    (name : List Char) : Prop where
  isName : Text.IsName name
  eq_triggerOf : p = triggerOf (String.ofList name)
  accepted : (evaluateSource (.ofScope scope) context ('@' :: name) "").accepted? = some p

/-- What the line of a trigger is accepted as lasts. -/
theorem exists_lastingTrigger {line : List Char} (hkind : (classifyLine line).kind = .trigger)
    (haccepted : (evaluateSource (.ofScope scope) context (classifyLine line).body "").accepted?
      = some p) :
  ∃ name, LastingTrigger scope context p name
  := by
  obtain ⟨f, hparse, hkeeps⟩ := accepted?_evaluateSource_iff.mp haccepted
  obtain ⟨⟨rest, rfl⟩, hbody⟩ := of_classifyLine_kind_trigger hkind
  rw [hbody] at hparse
  obtain ⟨word, rfl⟩ := eq_of_parseLine_at hparse
  have hline := derivesLine_of_parseLine hparse
  rw [← meaning_nil] at hline
  generalize hts : meaning [] ('@' :: rest) = ts at hline
  cases hline with
  | expression hderives =>
    -- an expression has no field that names a trigger
    have hunadorned := hderives.unadorned hcatalog _ rfl
    exact absurd (hunadorned.unpublished "type" (by simp [Table.keys])) (by simp)
  | @trigger sign name hsign hname hknown =>
    have hmem : name ∈ meaning [] ('@' :: rest) := by simp [hts]
    have hisName := isName_of_mem_terminals (mem_terminals_of_mem_meaning hmem (by simp [hname]))
      hname
    have hp : p = triggerOf name.word := by
      cases hkeeps with
      | primitive hprimitive => cases hprimitive
      | processed => exact postProcess_trigger _ _
    have hread := @DerivesLine.trigger scope (.ofSymbol .at) ⟨.identifier, name.text, false⟩
      rfl rfl hknown
    refine ⟨name.text, hisName, hp, accepted?_evaluateSource_iff.mpr ⟨_, ?_, hkeeps⟩⟩
    exact parseLine_of_means (means_trigger hisName rfl) hread

end TriggerLang
