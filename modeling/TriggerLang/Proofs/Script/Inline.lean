import TriggerLang.Proofs.Script.Published
import TriggerLang.Proofs.Script.Rejected
import TriggerLang.Script.Inline

/-!
# Inline expressions as scripts

An inline expression and a script are processed in two ways that have nothing in common beyond the
evaluation of a line.  Where only one line is not blank and that line is an action, they agree: the
same is reported, and if nothing is, the script has one action, which is the published value of the
expression, and both are rendered to the same text.
-/

namespace TriggerLang

open Fragment (Bare)

/-! ### Blank lines -/

theorem trim_eq_nil_of_all {text : List Char} (h : text.all Text.isBlank = true) :
  Text.trim text = []
  := by
  have hstart : Text.trimStart text = [] :=
    List.dropWhile_eq_nil_iff.mpr (List.all_eq_true.mp h)
  rw [Text.trim, hstart]
  rfl

namespace Progress

variable (toolkit : Toolkit) (context : Context)

/-- A blank line changes nothing. -/
theorem addLine_of_all {progress : Progress} {line : Text.Line}
    (h : line.text.all Text.isBlank = true) :
  progress.addLine toolkit context line = progress
  := by
  rw [addLine, trim_eq_nil_of_all h]
  rfl

/-- Lines change what those of them do that are not blank. -/
theorem addLines_filter (progress : Progress) (lines : List Text.Line) :
  progress.addLines toolkit context lines
    = progress.addLines toolkit context (lines.filter fun line => !line.text.all Text.isBlank)
  := by
  induction lines generalizing progress with
  | nil => rfl
  | cons line rest ih =>
    by_cases hblank : line.text.all Text.isBlank = true
    · rw [List.filter_cons_of_neg (by simp [hblank]), ← ih]
      exact congrArg (addLines toolkit context · rest) (addLine_of_all toolkit context hblank)
    · rw [List.filter_cons_of_pos (by simp [hblank])]
      exact ih _

end Progress

/-! ### One action -/

section

variable {toolkit : Toolkit} {context : Context} {identity : Identity} {script : List Char}
  {line : Text.Line}

/-- A script whose only line is an action consists of what the action is accepted as. -/
theorem readScript_of_action (hline : nonBlankLines script = [line])
    (hkind : (classifyLine (Text.trim line.text)).kind = .action) {outcome : Outcome}
    (houtcome : evaluate toolkit context (Text.trim line.text) context.defaultReturnType
      = outcome) :
  readScript toolkit context identity script
    = { assembler := { identity, actions := outcome.accepted?.toList }
        diagnostics := placeAll line (Text.indent line.text) outcome.diagnostics }
  := by
  have hbody := (of_classifyLine_kind_action hkind).2.2
  have hlines : (Text.numberedLines script).filter (fun line => !line.text.all Text.isBlank)
      = [line] := hline
  rw [readScript, Progress.addLines_filter, hlines, Progress.addLines, List.foldl_cons,
    List.foldl_nil, Progress.addLine]
  simp only [hkind, hbody, houtcome, Progress.addAction]
  cases outcome.accepted? with
  | none => rfl
  | some action =>
    have houtside : Script.Outside { identity } := ⟨rfl, rfl⟩
    simp only [Progress.report, houtside.insertAction_eq]
    rfl

/-- An inline expression is the value of its only line. -/
theorem evaluateInline_of_line (hline : nonBlankLines script = [line]) {outcome : Outcome}
    (houtcome : evaluate toolkit context (Text.trim line.text) context.defaultReturnType
      = outcome) {text : List Char}
    (htext : ∀ f ∈ outcome.fragment, (toolkit.renderer context).render f = .ok text)
    (hnone : outcome.fragment = none → text = []) :
  evaluateInline toolkit context script
    = .ok ⟨outcome.fragment, placeAll line (Text.indent line.text) outcome.diagnostics, text⟩
  := by
  simp only [evaluateInline, hline, houtcome, List.map_nil, List.append_nil]
  cases hfragment : outcome.fragment with
  | none => rw [hnone hfragment]
  | some f =>
    simp only [htext f hfragment]
    rfl

end

/-! ### Rendering actions -/

section

variable {renderer : Renderer} {actions : List Fragment}
  (hbare : ∀ action ∈ actions, Bare action)

include hbare

/-- Actions without comments are rendered as a line for each of them. -/
theorem listLines_of_bare (depth : Nat) :
  renderer.listLines depth (actions.map Fragment.publish)
    = actions.mapM (renderer.actionLine depth)
  := by
  induction actions with
  | nil =>
    rw [List.map_nil, Renderer.listLines]
    rfl
  | cons action rest ih =>
    obtain ⟨haction, hrest⟩ := List.forall_mem_cons.mp hbare
    rw [List.map_cons, Renderer.listLines, haction.actionLines_eq, ih hrest, List.mapM_cons]
    cases renderer.actionLine depth action <;> rfl

theorem documentLines_of_bare {document : Document} (htriggers : document.triggers = [])
    (hactions : document.actions = actions.map Fragment.publish) :
  renderer.documentLines document.toFragment = actions.mapM (renderer.actionLine 0)
  := by
  rw [Renderer.documentLines_toFragment, htriggers, hactions, listLines_of_bare hbare]
  change (actions.mapM (renderer.actionLine 0) >>= pure) = _
  rw [bind_pure]

end

section

variable {scope : Parse.Scope} {context : Context}

/-! ### Agreement -/

/-- The script and the inline expression agree: the same is reported, and if nothing is, the only
action of the script is the published value of the expression and both are rendered to the same
text.  Otherwise the script has no action. -/
structure Build.Agrees (build : Build) (inline : InlineResult) : Prop where
  diagnostics : build.diagnostics.Perm inline.diagnostics
  accepted : inline.diagnostics = [] → ∃ f, inline.output = some f
    ∧ build.document.actions = [f.publish] ∧ build.text = inline.text
  rejected : inline.diagnostics ≠ [] → build.document.actions = []

section

variable (identity : Identity) {script : List Char} {line : Text.Line}
  (hline : nonBlankLines script = [line])
  (hkind : (classifyLine (Text.trim line.text)).kind = .action) {outcome : Outcome}
  (houtcome : evaluate (.ofScope scope) context (Text.trim line.text) context.defaultReturnType
    = outcome)

include hline hkind houtcome

/-- A script whose only line is an action is reported as the line is. -/
theorem allDiagnostics_of_action :
  (readScript (.ofScope scope) context identity script).allDiagnostics.Perm
    (placeAll line (Text.indent line.text) outcome.diagnostics)
  := by
  rw [readScript_of_action hline hkind houtcome, Progress.allDiagnostics]
  apply (List.mergeSort_perm _ _).trans
  simp

/-- The document of a script whose only line is an action has what the action is accepted as. -/
theorem document_of_action :
  (readScript (.ofScope scope) context identity script).assembler.document.publish.triggers = []
    ∧ (readScript (.ofScope scope) context identity script).assembler.document.publish.actions
      = outcome.accepted?.toList.map Fragment.publish
  := by
  rw [Script.publish_readScript, readScript_of_action hline hkind houtcome,
    Fragment.publishAll_eq_map]
  exact ⟨rfl, rfl⟩

/-- A script whose only line is an action is rendered as what the action is accepted as. -/
theorem documentLines_of_action (hcatalog : scope.catalog.Publishable) {text : List Char}
    (htext : ∀ f ∈ outcome.accepted?,
      ((Toolkit.ofScope scope).renderer context).render f = .ok text) :
  ((Toolkit.ofScope scope).renderer context).documentLines
      (readScript (.ofScope scope) context identity script).assembler.document.publish.toFragment
    = .ok (outcome.accepted?.toList.map fun _ => text)
  := by
  obtain ⟨htriggers, hactions⟩ := document_of_action identity hline hkind houtcome
  have hbare : ∀ p ∈ outcome.accepted?.toList, Bare p := by
    intro p hp
    have htrimmed : Text.Trimmed (Text.trim line.text) := trimmed_of_kind (by simp [hkind])
    apply Script.bare_of_accepted hcatalog htrimmed hkind
    rw [(of_classifyLine_kind_action hkind).2.2, houtcome]
    exact Option.mem_toList.mp hp
  rw [documentLines_of_bare hbare htriggers hactions]
  cases haccepted : outcome.accepted? with
  | none => rfl
  | some p =>
    rw [Option.toList_some, List.mapM_cons, Renderer.actionLine, htext p haccepted]
    rfl

end

/-- A text whose only line is an action is evaluated as an inline expression and built as a script,
and the two agree. -/
theorem exists_agrees_of_action (hcatalog : scope.catalog.Publishable) (context : Context)
    (identity : Identity) {script : List Char} {line : Text.Line}
    (hline : nonBlankLines script = [line])
    (hkind : (classifyLine (Text.trim line.text)).kind = .action) :
  ∃ inline build, evaluateInline (.ofScope scope) context script = .ok inline
    ∧ buildScript (.ofScope scope) context identity script = .ok build
    ∧ build.Agrees inline
  := by
  obtain ⟨outcome, houtcome⟩ : ∃ outcome, evaluate (.ofScope scope) context (Text.trim line.text)
      context.defaultReturnType = outcome := ⟨_, rfl⟩
  -- the value of an expression is rendered even where it is not accepted
  obtain ⟨text, htext, hnone⟩ : ∃ text,
      (∀ f ∈ outcome.fragment, ((Toolkit.ofScope scope).renderer context).render f = .ok text)
        ∧ (outcome.fragment = none → text = []) := by
    cases hfragment : outcome.fragment with
    | none => exact ⟨[], by simp, fun _ => rfl⟩
    | some f =>
      rw [← houtcome] at hfragment
      have hrenderable := Script.renderable_of_fragment hcatalog.harmless hfragment
      obtain ⟨text, htext⟩ := hrenderable.exists_render ((Toolkit.ofScope scope).renderer context)
      exact ⟨text, by simpa using htext, nofun⟩
  have hlines := documentLines_of_action identity hline hkind houtcome hcatalog
    fun f hf => htext f (Outcome.fragment_of_accepted? hf)
  have hactions := (document_of_action identity hline hkind houtcome).2
  refine ⟨_, _, evaluateInline_of_line hline houtcome htext hnone,
    buildScript_eq_ok_iff.mpr ⟨_, hlines, rfl⟩,
    allDiagnostics_of_action identity hline hkind houtcome, ?_, ?_⟩
  · intro hnil
    have hdiagnostics : outcome.diagnostics = [] := List.map_eq_nil_iff.mp hnil
    rw [← houtcome] at hdiagnostics
    obtain ⟨f, hf⟩ :=
      Option.isSome_iff_exists.mp (Script.isSome_of_diagnostics_eq_nil hdiagnostics)
    rw [houtcome] at hf
    refine ⟨f, Outcome.fragment_of_accepted? hf, ?_, ?_⟩
    · rw [hactions, hf]
      rfl
    · simp [hf]
  · intro hne
    have hrejected : outcome.accepted? = none := Outcome.accepted?_of_placeAll hne
    rw [hactions, hrejected]
    rfl

end

/-- An indented action between blank lines, with a bare word in it, is evaluated and built alike. -/
theorem exists_agrees_of_action_knight :
  nonBlankLines "\r\n  runScript(Knight)\r\t".toList
      = [⟨2, "  runScript(Knight)".toList, by decide⟩]
    ∧ (classifyLine (Text.trim "  runScript(Knight)".toList)).kind = .action
    ∧ ∃ inline build, evaluateInline (.ofScope {}) Script.knightContext
        "\r\n  runScript(Knight)\r\t".toList = .ok inline
      ∧ buildScript (.ofScope {}) Script.knightContext ⟨"", "", 0, .null, false⟩
        "\r\n  runScript(Knight)\r\t".toList = .ok build
      ∧ build.Agrees inline
  := by
  have hcatalog : Catalog.builtin.Publishable :=
    ⟨⟨by decide, by decide, by decide⟩, by decide, by decide, by decide⟩
  have hline : nonBlankLines "\r\n  runScript(Knight)\r\t".toList
      = [⟨2, "  runScript(Knight)".toList, by decide⟩] := by rfl
  have hkind : (classifyLine (Text.trim "  runScript(Knight)".toList)).kind = .action := by
    decide +kernel
  exact ⟨hline, hkind, @exists_agrees_of_action {} hcatalog _ _ _ _ hline hkind⟩

end TriggerLang
