import Mathlib.Tactic.Common
import TriggerLang.Proofs.Document.Steps
import TriggerLang.Script.Build

/-!
# What single lines do

A line of a script takes steps of assembling, changes which blocks are open, and adds what is
found wrong with it.  All three depend on the line and on the blocks that are open before it,
neither on the document nor on the diagnostics before it, and what is found is placed on the
line.
-/

namespace TriggerLang.Progress

variable (toolkit : Toolkit) (context : Context)

/-- What is found wrong with a line after which blocks are open. -/
def found (openBlocks : List OpenBlock) (line : Text.Line) : List Diagnostic :=
  let indent := Text.indent line.text
  let classified := classifyLine (Text.trim line.text)
  let keyword := keywordRegion line indent classified
  match classified.kind with
  | .blank | .comment => []
  | .trigger =>
    placeAll line indent (evaluateSource toolkit context classified.body "").diagnostics
  | .blockStart =>
    placeAll line (indent + classified.bodyOffset)
      (evaluate toolkit context classified.body booleanType).diagnostics
  | .blockElse =>
    match openBlocks with
    | [] => [.of .unmatchedElse keyword]
    | block :: _ => if block.hasElse then [.of .duplicateElse keyword] else []
  | .blockEnd => if openBlocks.isEmpty then [.of .unmatchedEnd keyword] else []
  | .action =>
    placeAll line indent
      (evaluate toolkit context classified.body context.defaultReturnType).diagnostics

/-- What is found wrong with a line starts on the line. -/
theorem start_line_of_mem_found {openBlocks : List OpenBlock} {line : Text.Line} {d : Diagnostic}
    (h : d ∈ found toolkit context openBlocks line) :
  d.region.start.line = line.number
  := by
  have hplaced : ∀ {indent : Nat} {ds : List Diagnostic}, d ∈ placeAll line indent ds →
      d.region.start.line = line.number := by
    intro indent ds hd
    obtain ⟨e, -, rfl⟩ := List.mem_map.mp hd
    rfl
  have hkeyword : ∀ {issue : Issue} {indent : Nat} {classified : ClassifiedLine},
      d ∈ [Diagnostic.of issue (keywordRegion line indent classified)] →
      d.region.start.line = line.number := by
    intro issue indent classified hd
    rw [List.mem_singleton.mp hd]
    rfl
  simp only [found] at h
  split at h
  · cases h
  · cases h
  · exact hplaced h
  · exact hplaced h
  · split at h
    · exact hkeyword h
    · split at h
      · exact hkeyword h
      · cases h
  · split at h
    · exact hkeyword h
    · cases h
  · exact hplaced h

/-! ### What a line does -/

/-- The steps that an `else` line takes. -/
def elseSteps : List OpenBlock → List Assembler.Step
  | [] => []
  | block :: _ => if block.hasElse then [] else [.advance]

/-- The open blocks after an `else` line. -/
def withElse : List OpenBlock → List OpenBlock
  | [] => []
  | block :: rest => { block with hasElse := true } :: rest

/-- The steps that an `end` line takes. -/
def endSteps (openBlocks : List OpenBlock) : List Assembler.Step :=
  if openBlocks.isEmpty then [] else [.close]

/-- The steps of assembling that a line takes after which blocks are open. -/
def steps (openBlocks : List OpenBlock) (line : Text.Line) : List Assembler.Step :=
  let classified := classifyLine (Text.trim line.text)
  match classified.kind with
  | .blank => []
  | .comment => [.comment (String.ofList classified.body)]
  | .trigger =>
    ((evaluateSource toolkit context classified.body "").accepted?.filter
      Fragment.isMapping).toList.map .trigger
  | .blockStart =>
    .open blockKind ::
      ((evaluate toolkit context classified.body booleanType).accepted?.toList.map .insert ++
        [.advance])
  | .blockElse => elseSteps openBlocks
  | .blockEnd => endSteps openBlocks
  | .action =>
    (evaluate toolkit context classified.body context.defaultReturnType).accepted?.toList.map
      .insert

/-- The blocks that are open after a line. -/
def openAfter (openBlocks : List OpenBlock) (line : Text.Line) : List OpenBlock :=
  let classified := classifyLine (Text.trim line.text)
  match classified.kind with
  | .blockStart => ⟨keywordRegion line (Text.indent line.text) classified, false⟩ :: openBlocks
  | .blockElse => withElse openBlocks
  | .blockEnd => openBlocks.tail
  | _ => openBlocks

theorem addTrigger_eq (progress : Progress) (outcome : Outcome) :
  progress.addTrigger outcome
    = { progress with
        assembler := ((outcome.accepted?.filter Fragment.isMapping).toList.map
          Assembler.Step.trigger).foldl Assembler.performed progress.assembler }
  := by
  rw [addTrigger]
  cases outcome.accepted? with
  | none => rfl
  | some fragment => cases hmapping : fragment.isMapping <;> simp [hmapping, Option.filter]

theorem addAction_eq (progress : Progress) (outcome : Outcome) :
  progress.addAction outcome
    = { progress with
        assembler := (outcome.accepted?.toList.map Assembler.Step.insert).foldl
          Assembler.performed progress.assembler }
  := by
  rw [addAction]
  cases outcome.accepted? <;> rfl

/-- A line does three things, none of which depends on what was found wrong before. -/
theorem addLine_eq (progress : Progress) (line : Text.Line) :
  progress.addLine toolkit context line
    = { assembler := (steps toolkit context progress.openBlocks line).foldl
          Assembler.performed progress.assembler
        openBlocks := openAfter progress.openBlocks line
        diagnostics := progress.diagnostics ++ found toolkit context progress.openBlocks line }
  := by
  obtain ⟨assembler, openBlocks, diagnostics⟩ := progress
  cases hkind : (classifyLine (Text.trim line.text)).kind with
  | blank => simp [addLine, steps, openAfter, found, hkind]
  | comment =>
    simp only [addLine, steps, openAfter, found, hkind, List.append_nil]
    rfl
  | trigger =>
    simp only [addLine, steps, openAfter, found, hkind, addTrigger_eq]
    rfl
  | blockStart =>
    simp only [addLine, steps, openAfter, found, hkind, openBlock, addAction_eq,
      List.foldl_cons, List.foldl_append, List.foldl_nil]
    rfl
  | blockElse =>
    simp only [addLine, steps, openAfter, found, hkind, beginElse]
    cases openBlocks with
    | nil => rfl
    | cons block rest =>
      obtain ⟨region, hasElse⟩ := block
      cases hasElse <;> simp [report, elseSteps, withElse]
  | blockEnd =>
    simp only [addLine, steps, openAfter, found, hkind, closeBlock]
    cases openBlocks with
    | nil => rfl
    | cons block rest => simp [endSteps]
  | action =>
    simp only [addLine, steps, openAfter, found, hkind, addAction_eq]
    rfl

/-! ### Reading on with other diagnostics -/

/-- The progress with other diagnostics. -/
def withDiagnostics (progress : Progress) (ds : List Diagnostic) : Progress :=
  { progress with diagnostics := ds }

/-- Reading a line adds what is found wrong with it, and does the rest without regard to the
diagnostics before it. -/
theorem addLine_withDiagnostics (progress : Progress) (ds : List Diagnostic) (line : Text.Line) :
  (progress.withDiagnostics ds).addLine toolkit context line
    = (progress.addLine toolkit context line).withDiagnostics
        (ds ++ found toolkit context progress.openBlocks line)
  := by
  rw [addLine_eq, addLine_eq]
  rfl

theorem diagnostics_addLine (progress : Progress) (line : Text.Line) :
  (progress.addLine toolkit context line).diagnostics
    = progress.diagnostics ++ found toolkit context progress.openBlocks line
  := congrArg diagnostics (addLine_eq toolkit context progress line)

/-- What is found wrong with lines was found on one of them. -/
theorem exists_addLines_withDiagnostics (progress : Progress) (lines : List Text.Line) :
  ∃ es, (∀ d ∈ es, ∃ line ∈ lines, ∃ openBlocks, d ∈ found toolkit context openBlocks line)
    ∧ ∀ ds, (progress.withDiagnostics ds).addLines toolkit context lines
      = (progress.addLines toolkit context lines).withDiagnostics (ds ++ es)
  := by
  induction lines generalizing progress with
  | nil => exact ⟨[], by simp, fun ds => by rw [List.append_nil]; rfl⟩
  | cons line rest ih =>
    obtain ⟨es, hes, hrest⟩ := ih (progress.addLine toolkit context line)
    refine ⟨found toolkit context progress.openBlocks line ++ es, ?_, fun ds => ?_⟩
    · rw [List.forall_mem_append]
      refine ⟨fun d hd => ⟨line, List.mem_cons_self, _, hd⟩, fun d hd => ?_⟩
      obtain ⟨other, hother, hfound⟩ := hes d hd
      exact ⟨other, List.mem_cons_of_mem line hother, hfound⟩
    · change ((progress.withDiagnostics ds).addLine toolkit context line).addLines toolkit context
        rest = _
      rw [addLine_withDiagnostics, hrest, List.append_assoc]
      rfl

/-! ### Blocks that stay open -/

/-- The blocks that are open after a line were open before, or the line opens them. -/
theorem of_mem_openBlocks_addLine {progress : Progress} {line : Text.Line} {block : OpenBlock}
    (h : block ∈ (progress.addLine toolkit context line).openBlocks) :
  (∃ before ∈ progress.openBlocks, before.region = block.region)
    ∨ (classifyLine (Text.trim line.text)).kind = .blockStart
      ∧ block.region = keywordRegion line (Text.indent line.text)
          (classifyLine (Text.trim line.text))
  := by
  rw [addLine_eq] at h
  simp only [openAfter] at h
  split at h
  · rename_i hkind
    rcases List.mem_cons.mp h with rfl | h
    · exact .inr ⟨hkind, rfl⟩
    · exact .inl ⟨block, h, rfl⟩
  · cases hopen : progress.openBlocks with
    | nil =>
      rw [hopen] at h
      cases h
    | cons first rest =>
      rw [hopen] at h
      rcases List.mem_cons.mp h with rfl | h
      · exact .inl ⟨first, List.mem_cons_self, rfl⟩
      · exact .inl ⟨block, List.mem_cons_of_mem first h, rfl⟩
  · exact .inl ⟨block, List.mem_of_mem_tail h, rfl⟩
  · exact .inl ⟨block, h, rfl⟩

theorem of_mem_openBlocks_addLines {progress : Progress} {lines : List Text.Line}
    {block : OpenBlock} (h : block ∈ (progress.addLines toolkit context lines).openBlocks) :
  (∃ before ∈ progress.openBlocks, before.region = block.region)
    ∨ ∃ line ∈ lines, (classifyLine (Text.trim line.text)).kind = .blockStart
      ∧ block.region = keywordRegion line (Text.indent line.text)
          (classifyLine (Text.trim line.text))
  := by
  induction lines generalizing progress with
  | nil => exact .inl ⟨block, h, rfl⟩
  | cons line rest ih =>
    rcases ih h with ⟨between, hbetween, hregion⟩ | ⟨other, hother, hblock⟩
    · rcases of_mem_openBlocks_addLine toolkit context hbetween with
        ⟨before, hbefore, hsame⟩ | ⟨hkind, hkeyword⟩
      · exact .inl ⟨before, hbefore, hsame.trans hregion⟩
      · exact .inr ⟨line, List.mem_cons_self, hkind, hregion.symm.trans hkeyword⟩
    · exact .inr ⟨other, List.mem_cons_of_mem line hother, hblock⟩

/-! ### Whole scripts -/

variable {toolkit} {context} {identity : Identity} {script : List Char} {d : Diagnostic}

/-- Nothing is wrong with a blank line or a comment. -/
theorem kind_of_mem_found {openBlocks : List OpenBlock} {line : Text.Line}
    (h : d ∈ found toolkit context openBlocks line) :
  (classifyLine (Text.trim line.text)).kind ∉ [.blank, .comment]
  := by
  unfold found at h
  cases hkind : (classifyLine (Text.trim line.text)).kind with
  | blank =>
    simp only [hkind] at h
    cases h
  | comment =>
    simp only [hkind] at h
    cases h
  | _ => simp

/-- What is reported for a script is found wrong with one of its lines, or is the report of a
block that one of them opens. -/
theorem of_mem_allDiagnostics
    (h : d ∈ (readScript toolkit context identity script).allDiagnostics) :
  (∃ line ∈ Text.numberedLines script, ∃ openBlocks, d ∈ found toolkit context openBlocks line)
    ∨ ∃ line ∈ Text.numberedLines script,
      (classifyLine (Text.trim line.text)).kind = .blockStart
        ∧ d = .of .unclosedBlock (keywordRegion line (Text.indent line.text)
          (classifyLine (Text.trim line.text)))
  := by
  rcases List.mem_append.mp ((List.mergeSort_perm _ _).mem_iff.mp h) with h | h
  · obtain ⟨es, hes, hrun⟩ := exists_addLines_withDiagnostics toolkit context
      { assembler := { identity } } (Text.numberedLines script)
    have hdiagnostics : (readScript toolkit context identity script).diagnostics = es :=
      congrArg diagnostics (hrun [])
    rw [hdiagnostics] at h
    exact .inl (hes d h)
  · obtain ⟨block, hblock, rfl⟩ := List.mem_map.mp h
    rcases of_mem_openBlocks_addLines toolkit context (List.mem_reverse.mp hblock) with
      ⟨before, hbefore, -⟩ | ⟨line, hline, hkind, hregion⟩
    · cases hbefore
    · exact .inr ⟨line, hline, hkind, by rw [hregion]⟩

end TriggerLang.Progress

namespace TriggerLang

/-- What is reported for a script that is built is what was found while it was read. -/
theorem diagnostics_of_buildScript {toolkit : Toolkit} {context : Context} {identity : Identity}
    {script : List Char} {build : Build}
    (h : buildScript toolkit context identity script = .ok build) :
  build.diagnostics = (readScript toolkit context identity script).allDiagnostics
  := (eq_of_buildScript h).2

/-- A script whose build can be seen to have a property is built. -/
theorem exists_build_of_any {toolkit : Toolkit} {context : Context} {identity : Identity}
    {script : List Char} {p : Build → Bool}
    (h : (buildScript toolkit context identity script).toOption.any p = true) :
  ∃ build, buildScript toolkit context identity script = .ok build ∧ p build = true
  := by
  cases hbuild : buildScript toolkit context identity script with
  | error e =>
    rw [hbuild] at h
    cases h
  | ok build =>
    rw [hbuild] at h
    exact ⟨build, rfl, h⟩

end TriggerLang
