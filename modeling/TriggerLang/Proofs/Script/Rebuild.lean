import TriggerLang.Proofs.Script.Rendered

/-!
# Building scripts from their own text

A script that has been built is rendered, and the text is built to the same document, whatever
was wrong with the script.  Everything in the document came from a line that was accepted, so
it lasts: its line is read again as what it was.  If nothing was wrong with the script, nothing
is wrong with its text.
-/

namespace TriggerLang.Script

variable {scope : Parse.Scope} {context : Context} {inOrder : Prop}

/-! ### Lines of a script -/

/-- All numbers that are written in the lines of a script are finite. -/
def FiniteLines (script : List Char) : Prop :=
  ∀ line ∈ Text.splitLines script, ∀ token ∈ significantTokens (Text.trim line),
    token.kind = .float → (Grammar.floatValue token.text).isFinite = true

theorem finiteText_of_tokens {text : List Char}
    (h : ∀ token ∈ significantTokens text, token.kind = .float →
      (Grammar.floatValue token.text).isFinite = true) :
  FiniteText text
  := by
  intro t ht hkind
  have hmem : t ∈ (significantTokens text).map Token.terminal := by
    rw [map_terminal_significantTokens]
    exact List.mem_filter.mpr ⟨ht, by rw [Terminal.isSignificant, hkind]; rfl⟩
  obtain ⟨token, htoken, rfl⟩ := List.mem_map.mp hmem
  exact h token htoken hkind

/-- An expression that is not accepted is reported. -/
theorem isSome_of_diagnostics_eq_nil {source : List Char} {expected : String}
    (h : (evaluate (.ofScope scope) context source expected).diagnostics = []) :
  (evaluate (.ofScope scope) context source expected).accepted?.isSome
  := by
  rw [Outcome.accepted?, h, if_pos List.isEmpty_nil]
  rw [evaluate, evaluateSource] at h ⊢
  split at h
  · cases h
  · split <;> rfl

theorem addTrigger_diagnostics (progress : Progress) (outcome : Outcome) :
  (progress.addTrigger outcome).diagnostics = progress.diagnostics
  := by
  unfold Progress.addTrigger
  split
  · split <;> rfl
  · rfl

theorem addAction_diagnostics (progress : Progress) (outcome : Outcome) :
  (progress.addAction outcome).diagnostics = progress.diagnostics
  := by
  unfold Progress.addAction
  split <;> rfl

/-- A line only adds diagnostics. -/
theorem addLine_diagnostics (progress : Progress) (line : Text.Line) :
  progress.diagnostics <+: (progress.addLine (.ofScope scope) context line).diagnostics
  := by
  simp only [Progress.addLine]
  cases (classifyLine (Text.trim line.text)).kind with
  | blank => exact List.prefix_rfl
  | comment => exact List.prefix_rfl
  | trigger =>
    rw [addTrigger_diagnostics]
    exact List.prefix_append _ _
  | blockStart =>
    rw [openBlock_eq_inside]
    exact List.prefix_append _ _
  | blockElse =>
    simp only [Progress.beginElse]
    split
    · exact List.prefix_append _ _
    · split
      · exact List.prefix_append _ _
      · exact List.prefix_rfl
  | blockEnd =>
    simp only [Progress.closeBlock]
    split
    · exact List.prefix_append _ _
    · exact List.prefix_rfl
  | action =>
    rw [addAction_diagnostics]
    exact List.prefix_append _ _

theorem addLines_diagnostics (progress : Progress) (lines : List Text.Line) :
  progress.diagnostics <+: (progress.addLines (.ofScope scope) context lines).diagnostics
  := by
  induction lines generalizing progress with
  | nil => exact List.prefix_rfl
  | cons line rest ih => exact (addLine_diagnostics progress line).trans (ih _)

/-- A rejected condition is reported. -/
theorem isSome_of_addLine {progress : Progress} {line : Text.Line} {keyword : Text.Region}
    {condition : Option Fragment}
    (hitem : Item.ofLine? (.ofScope scope) context line = some (.opening keyword condition))
    (h : (progress.addLine (.ofScope scope) context line).diagnostics = []) :
  condition.isSome
  := by
  simp only [Progress.addLine, Item.ofLine?] at h hitem
  cases hkind : (classifyLine (Text.trim line.text)).kind with
  | blockStart =>
    rw [hkind] at h hitem
    cases hitem
    rw [openBlock_eq_inside] at h
    exact isSome_of_diagnostics_eq_nil (List.map_eq_nil_iff.mp (List.append_eq_nil_iff.mp h).2)
  | _ =>
    rw [hkind] at hitem
    cases hitem

/-- No condition is rejected in lines of which nothing is reported. -/
theorem isSome_of_addLines {progress : Progress} {lines : List Text.Line}
    (h : (progress.addLines (.ofScope scope) context lines).diagnostics = []) {line : Text.Line}
    (hline : line ∈ lines) {keyword : Text.Region} {condition : Option Fragment}
    (hitem : Item.ofLine? (.ofScope scope) context line = some (.opening keyword condition)) :
  condition.isSome
  := by
  induction lines generalizing progress with
  | nil => cases hline
  | cons first rest ih =>
    change ((progress.addLine (.ofScope scope) context first).addLines _ _ rest).diagnostics = []
      at h
    rcases List.mem_cons.mp hline with rfl | hline
    · have hprefix := @addLines_diagnostics scope context
        (progress.addLine (.ofScope scope) context line) rest
      rw [h] at hprefix
      exact isSome_of_addLine hitem (List.prefix_nil.mp hprefix)
    · exact ih h hline

/-! ### What lasts of a script -/

/-- What lasts of a line: the trigger that it declares, or its action, or its condition. -/
theorem lasting_of_ofLine? (hcatalog : scope.catalog.Publishable)
    (hproper : Substitution.AreProper context.substitutions) {line : Text.Line}
    (hfinite : FiniteText (Text.trim line.text)) {item : Item}
    (hitem : Item.ofLine? (.ofScope scope) context line = some item)
    (hopening : ∀ keyword condition, item = .opening keyword condition → inOrder →
      condition.isSome) :
  item.All (fun p => ∃ text, LastingAction scope context p text)
      (fun c => (∀ f ∈ c, ∃ text, Lasts scope context booleanType f text) ∧ (inOrder → c.isSome))
    ∧ ∀ f ∈ item.trigger?, ∃ name, LastingTrigger scope context f name
  := by
  rcases Item.of_ofLine? hitem with ⟨hkind, rfl⟩ | ⟨hkind, rfl⟩ | ⟨hkind, keyword, rfl⟩ |
    ⟨keyword, rfl⟩ | ⟨keyword, rfl⟩
  · exact ⟨trivial, fun f hf => exists_lastingTrigger hcatalog hkind hf⟩
  · have htrimmed : Text.Trimmed (Text.trim line.text) := trimmed_of_kind (by simp [hkind])
    exact ⟨fun f hf => exists_lastingAction hcatalog hproper htrimmed hkind hf hfinite, nofun⟩
  · have htrimmed : Text.Trimmed (Text.trim line.text) := trimmed_of_kind (by simp [hkind])
    refine ⟨⟨fun f hf => ?_, hopening _ _ rfl⟩, nofun⟩
    exact exists_lasts_of_blockStart hcatalog hproper htrimmed hkind hf hfinite
  · exact ⟨trivial, nofun⟩
  · exact ⟨trivial, nofun⟩

/-- What is known at the end of a script: all that will be in the document lasts. -/
theorem exists_trees (hcatalog : scope.catalog.Publishable)
    (hproper : Substitution.AreProper context.substitutions) {script : List Char}
    (hfinite : FiniteLines script) (identity : Identity) :
  ∃ trees, List.Forall₂ Carries
      (readScript (.ofScope scope) context identity script).assembler.actions trees
    ∧ (∀ tree ∈ trees, Lasting scope context
      ((readScript (.ofScope scope) context identity script).diagnostics = []) tree)
    ∧ ∀ f ∈ (readScript (.ofScope scope) context identity script).assembler.triggers,
      ∃ name, LastingTrigger scope context f name
  := by
  have hlasting : ∀ item ∈ items (.ofScope scope) context script,
      item.All (fun p => ∃ text, LastingAction scope context p text)
          (fun c => (∀ f ∈ c, ∃ text, Lasts scope context booleanType f text)
            ∧ ((readScript (.ofScope scope) context identity script).diagnostics = [] → c.isSome))
        ∧ ∀ f ∈ item.trigger?, ∃ name, LastingTrigger scope context f name := by
    intro item hitem
    obtain ⟨line, hline, hitem⟩ := List.mem_filterMap.mp hitem
    have hfinite : FiniteText (Text.trim line.text) :=
      finiteText_of_tokens (hfinite line.text (Text.text_mem_of_mem_numberFrom hline))
    apply lasting_of_ofLine? hcatalog hproper hfinite hitem
    rintro keyword condition rfl hdiagnostics
    exact isSome_of_addLines hdiagnostics hline hitem
  obtain ⟨trees, hcarries, htrees⟩ :=
    exists_trees_of_items scope context identity script fun item hitem => (hlasting item hitem).1
  refine ⟨trees, hcarries, htrees, fun f hf => ?_⟩
  rw [triggers_readScript] at hf
  obtain ⟨item, hitem, hf⟩ := List.mem_filterMap.mp hf
  exact (hlasting item hitem).2 f hf

/-! ### Rendering a document -/

theorem foldl_insertTrigger (triggers : List Fragment) (assembler : Assembler) :
  triggers.foldl Assembler.insertTrigger assembler
    = { assembler with triggers := assembler.triggers ++ triggers }
  := by
  induction triggers generalizing assembler with
  | nil => rw [List.append_nil, List.foldl_nil]
  | cons trigger rest ih =>
    rw [List.foldl_cons, ih, Assembler.insertTrigger]
    simp

theorem Outside.insertActions_eq {assembler : Assembler} (h : Outside assembler)
    (actions : List Fragment) :
  insertActions actions assembler = { assembler with actions := assembler.actions ++ actions }
  := by
  induction actions generalizing assembler with
  | nil => rw [List.append_nil, insertActions, List.foldl_nil]
  | cons action rest ih =>
    change insertActions rest (assembler.insertAction action) = _
    rw [ih (h.insertAction action), h.insertAction_eq]
    simp

/-- A trigger is rendered as the line that declares it. -/
theorem triggerLine_of_lasting {p : Fragment} {name : List Char}
    (h : LastingTrigger scope context p name) :
  Renderer.triggerLine p = .ok ('@' :: name)
  := by
  have hplain : (Fragment.plainField "type" "" [("type", .string (String.ofList name))]).toList
      = name := by
    simp [Fragment.plainField, Fragment.plain]
  rw [h.eq_triggerOf, Renderer.triggerLine]
  exact congrArg (fun text => Except.ok ('@' :: text)) hplain

/-- Triggers that last are rendered as lines that declare them. -/
theorem restores_triggers {triggers : List Fragment}
    (h : ∀ f ∈ triggers, ∃ name, LastingTrigger scope context f name) :
  Restores scope context inOrder Outside (triggers.mapM Renderer.triggerLine)
    (triggers.foldl Assembler.insertTrigger)
  := by
  induction triggers with
  | nil => exact ⟨[], rfl, by simp, .nil⟩
  | cons trigger rest ih =>
    obtain ⟨⟨name, hname⟩, hrest⟩ := List.forall_mem_cons.mp h
    obtain ⟨lines, hlines, hunbroken, hrereads⟩ := ih hrest
    refine ⟨['@' :: name] ++ lines, ?_, ?_, ?_⟩
    · rw [List.mapM_cons, triggerLine_of_lasting hname, hlines]
      rfl
    · have hsign : Text.Unbroken ['@'] := by simp [Text.Unbroken, Text.isLineBreak]
      exact List.forall_mem_cons.mpr ⟨hsign.append hname.isName.neat.unbroken, hunbroken⟩
    · have hfirst : Rereads scope context inOrder Outside ['@' :: name] (·.insertTrigger trigger) :=
        (rereads_trigger hname).imp (fun _ _ => trivial) fun _ _ => rfl
      exact hfirst.append hrereads fun _ houtside => ⟨houtside.pendingComment, houtside.blocks⟩

theorem Lasting.unreserved {tree : Tree} (h : Lasting scope context inOrder tree) :
  tree.fragment.Unreserved
  := by
  apply Tree.All.unreserved
  apply h.imp
  · rintro f ⟨text, htext⟩
    exact unreserved_of_accepted (htext.accepted text rfl)
  · rintro c ⟨hc, -⟩ f hf
    obtain ⟨text, htext⟩ := hc f hf
    exact unreserved_of_accepted (htext.accepted text rfl)

/-- A document of what lasts is rendered as lines that build it. -/
theorem restores_document (hcatalog : scope.catalog.Publishable) {assembler : Assembler}
    {trees : List Tree} (hcarries : List.Forall₂ Carries assembler.actions trees)
    (htrees : ∀ tree ∈ trees, Lasting scope context inOrder tree)
    (htriggers : ∀ f ∈ assembler.triggers, ∃ name, LastingTrigger scope context f name) :
  Restores scope context inOrder Outside
    (((Toolkit.ofScope scope).renderer context).documentLines
      assembler.document.publish.toFragment)
    (fun other => { other with
      triggers := other.triggers ++ assembler.triggers
      actions := other.actions ++ assembler.actions })
  := by
  obtain ⟨lines, hlines, hunbroken, hrereads⟩ := @restores_triggers _ _ inOrder _ htriggers
  obtain ⟨others, hothers, hunbroken', hrereads'⟩ := restores_trees hcatalog hcarries htrees
  have hplace : ∀ other, Outside other →
      Outside (assembler.triggers.foldl Assembler.insertTrigger other) := by
    intro other houtside
    rw [foldl_insertTrigger]
    exact ⟨houtside.pendingComment, houtside.blocks⟩
  refine ⟨lines ++ others, ?_, List.forall_mem_append.mpr ⟨hunbroken, hunbroken'⟩, ?_⟩
  · have hunreservedTriggers : ∀ f ∈ assembler.triggers, f.Unreserved := by
      intro f hf
      obtain ⟨name, hname⟩ := htriggers f hf
      exact unreserved_of_accepted hname.accepted
    have hunreservedActions : ∀ f ∈ assembler.actions, f.Unreserved := by
      intro f hf
      obtain ⟨tree, htree, hcarries⟩ := exists_tree_of_mem hcarries hf
      exact hcarries.unreserved (htrees tree htree).unreserved
    have hlines' : ((Toolkit.ofScope scope).renderer context).documentLines
        assembler.document.publish.toFragment = do
          let triggerLines ← assembler.triggers.mapM Renderer.triggerLine
          let actionLines ← ((Toolkit.ofScope scope).renderer context).branchLines 0
            (.list (Fragment.publishAll assembler.actions))
          return triggerLines ++ actionLines := by
      rw [publish_document hunreservedTriggers hunreservedActions]
      rfl
    rw [hlines', hlines, Renderer.branchLines, hothers]
    rfl
  · apply (hrereads.append hrereads' hplace).imp fun _ houtside => houtside
    intro other houtside
    rw [Function.comp_apply, (hplace other houtside).insertActions_eq, foldl_insertTrigger]

/-! ### Whole scripts -/

/-- Lines that are joined by line feeds are read one by one; no line at all is read as a blank
one. -/
theorem addLines_intercalate {lines : List (List Char)}
    (h : ∀ line ∈ lines, Text.Unbroken line) (progress : Progress) :
  progress.addLines (.ofScope scope) context (Text.numberedLines (['\n'].intercalate lines))
    = progress.addLines (.ofScope scope) context (Text.numberFrom 0 lines)
  := by
  by_cases hne : lines = []
  · subst hne
    rfl
  · rw [Text.numberedLines, Text.splitLines_intercalate hne h]

theorem diagnostics_of_allDiagnostics {progress : Progress} (h : progress.allDiagnostics = []) :
  progress.diagnostics = []
  := by
  have hperm := List.mergeSort_perm (progress.diagnostics ++
    progress.openBlocks.reverse.map fun block => Diagnostic.of .unclosedBlock block.region)
      Diagnostic.le
  rw [Progress.allDiagnostics, Diagnostic.sort] at h
  rw [h] at hperm
  exact (List.append_eq_nil_iff.mp hperm.nil_eq.symm).1

/-- Any script can be built, and so can the text that stands for its document: to the same
document, and without diagnostics if the script had none. -/
theorem buildScript_text (hcatalog : scope.catalog.Publishable)
    (hproper : Substitution.AreProper context.substitutions) {script : List Char}
    (hfinite : FiniteLines script) (identity : Identity) :
  ∃ first, buildScript (.ofScope scope) context identity script = .ok first
    ∧ ∃ second, buildScript (.ofScope scope) context identity first.text = .ok second
      ∧ second.document = first.document
      ∧ (first.diagnostics = [] → second.diagnostics = [])
  := by
  obtain ⟨trees, hcarries, htrees, htriggers⟩ := exists_trees hcatalog hproper hfinite identity
  obtain ⟨lines, hlines, hunbroken, hrereads⟩ :=
    restores_document hcatalog hcarries htrees htriggers
  obtain ⟨ds, hds, hread⟩ := hrereads { assembler := { identity } } 0 ⟨rfl, rfl⟩
  have hagain : readScript (.ofScope scope) context identity (['\n'].intercalate lines) = _ :=
    (addLines_intercalate hunbroken _).trans hread
  have hidentity : (readScript (.ofScope scope) context identity script).assembler.identity
      = identity := addLines_identity _ _ _ _
  have hdocument : (readScript (.ofScope scope) context identity
        (['\n'].intercalate lines)).assembler.document
      = (readScript (.ofScope scope) context identity script).assembler.document := by
    rw [hagain]
    simp [Assembler.document, Progress.report, hidentity]
  refine ⟨_, buildScript_eq_ok_iff.mpr ⟨_, hlines, rfl⟩, _,
    buildScript_eq_ok_iff.mpr ⟨_, hdocument ▸ hlines, rfl⟩, ?_, ?_⟩
  · exact congrArg Document.publish hdocument
  · intro hnil
    change Progress.allDiagnostics _ = []
    rw [hagain, hds (diagnostics_of_allDiagnostics hnil)]
    simp [Progress.allDiagnostics, Diagnostic.sort, Progress.report]

/-- The script of a commented action with a bare word, in a block after a rejected line. -/
def knightScript : List Char :=
  "oops\n@gameStart\n// north\nrunScript(Knight)\nif 1.5 < 2 // note\nelse\n end".toList

/-- The word `Knight` stands for a string in the actions of a script. -/
def knightContext : Context where
  defaultReturnType := "action"
  typeSubstitutions := [("action", [⟨"Knight", "Knight \"Unit\""⟩])]

/-- A script with a bare word and a rejected line is built again from the text that stands for
it. -/
theorem buildScript_text_knightScript :
  ∃ first, buildScript (.ofScope {}) knightContext ⟨"", "", 0, .null, false⟩ knightScript
      = .ok first
    ∧ ∃ second, buildScript (.ofScope {}) knightContext ⟨"", "", 0, .null, false⟩ first.text
        = .ok second
      ∧ second.document = first.document
      ∧ (first.diagnostics = [] → second.diagnostics = [])
  := by
  have hcatalog : Catalog.builtin.Publishable :=
    ⟨⟨by decide, by decide, by decide⟩, by decide, by decide, by decide⟩
  have hproper : Substitution.AreProper knightContext.substitutions := by
    refine ⟨by decide, ?_, by decide⟩
    intro s hs
    obtain rfl := List.mem_singleton.mp hs
    exact ⟨'K', "night".toList, rfl, by decide, List.all_eq_true.mp (by decide)⟩
  have hfinite : FiniteLines knightScript := by
    unfold FiniteLines
    decide +kernel
  exact buildScript_text hcatalog hproper hfinite _

end TriggerLang.Script
