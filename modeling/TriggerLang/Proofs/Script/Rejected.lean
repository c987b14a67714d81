import TriggerLang.Proofs.Diagnostic.Order
import TriggerLang.Proofs.Script.Found
import TriggerLang.Proofs.Text.Line

/-!
# Rejected lines

A line with which something is wrong leaves its diagnostics behind and nothing else, unless
it opens a block.  So the script without the characters of the line is built to the same
document, and what is reported for the other lines is reported as before.
-/

namespace TriggerLang

/-- A text with which something is wrong stands for nothing. -/
theorem Outcome.accepted?_of_placeAll {outcome : Outcome} {line : Text.Line} {indent : Nat}
    (h : placeAll line indent outcome.diagnostics ≠ []) :
  outcome.accepted? = none
  := by
  have hne : outcome.diagnostics.isEmpty ≠ true := by
    intro hempty
    rw [List.isEmpty_iff.mp hempty] at h
    exact h rfl
  rw [accepted?, if_neg hne]

namespace Progress

variable (toolkit : Toolkit) (context : Context)

/-- A line that has no characters changes nothing. -/
theorem addLine_nil (progress : Progress) {number : Nat} (number_pos : 0 < number) :
  progress.addLine toolkit context ⟨number, [], number_pos⟩ = progress
  := rfl

/-- A line with which something is wrong is reported and left out, unless it opens a block. -/
theorem addLine_of_found {progress : Progress} {line : Text.Line}
    (hkind : (classifyLine (Text.trim line.text)).kind ≠ .blockStart)
    (hfound : found toolkit context progress.openBlocks line ≠ []) :
  progress.addLine toolkit context line
    = progress.report (found toolkit context progress.openBlocks line)
  := by
  unfold addLine
  unfold found at hfound ⊢
  cases hline : (classifyLine (Text.trim line.text)).kind with
  | blank =>
    simp only [hline] at hfound
    exact absurd rfl hfound
  | comment =>
    simp only [hline] at hfound
    exact absurd rfl hfound
  | blockStart => exact absurd hline hkind
  | trigger =>
    simp only [hline] at hfound ⊢
    rw [addTrigger, Outcome.accepted?_of_placeAll hfound]
  | action =>
    simp only [hline] at hfound ⊢
    rw [addAction, Outcome.accepted?_of_placeAll hfound]
  | blockElse =>
    simp only [hline] at hfound ⊢
    unfold beginElse
    cases hopen : progress.openBlocks with
    | nil => rfl
    | cons block rest =>
      by_cases helse : block.hasElse = true
      · simp only [helse, if_true]
      · simp [hopen, helse] at hfound
  | blockEnd =>
    simp only [hline] at hfound ⊢
    unfold closeBlock
    cases hopen : progress.openBlocks with
    | nil => rfl
    | cons block rest => simp [hopen] at hfound

end Progress

variable {toolkit : Toolkit} {context : Context} {identity : Identity}
  {script other : List Char} {line : Text.Line}

/-- A block that is still open at the end was opened on another line than one that opens no
block. -/
theorem start_line_ne_of_mem_openBlocks (hline : line ∈ Text.numberedLines script)
    (hkind : (classifyLine (Text.trim line.text)).kind ≠ .blockStart) {block : OpenBlock}
    (hblock : block ∈ (readScript toolkit context identity script).openBlocks) :
  block.region.start.line ≠ line.number
  := by
  rcases Progress.of_mem_openBlocks_addLines toolkit context hblock with
    ⟨before, hbefore, -⟩ | ⟨opening, hopening, hstart, hregion⟩
  · cases hbefore
  · intro hnumber
    have hsame : opening.number = line.number := by
      rw [← hnumber, hregion]
      rfl
    exact hkind (Text.eq_of_mem_numberedLines hopening hline hsame ▸ hstart)

/-- Without the characters of a rejected line the same script is read, but for the diagnostics
of the line. -/
theorem exists_readScript_of_rejected (hline : line ∈ Text.numberedLines script)
    (hkind : (classifyLine (Text.trim line.text)).kind ≠ .blockStart)
    (hrejected : ∃ d ∈ (readScript toolkit context identity script).diagnostics,
      d.region.start.line = line.number)
    (hother : Text.splitLines other
      = (Text.splitLines script).set (line.number - 1) []) :
  ∃ before found after,
    (readScript toolkit context identity script).diagnostics = before ++ found ++ after
    ∧ readScript toolkit context identity other
      = (readScript toolkit context identity script).withDiagnostics (before ++ after)
    ∧ (∀ d ∈ found, d.region.start.line = line.number)
    ∧ ∀ d ∈ before ++ after, d.region.start.line ≠ line.number
  := by
  obtain ⟨pre, post, hlines, hset, hne⟩ := Text.exists_numberFrom_set hline
  rw [Nat.sub_zero, ← hother] at hset
  -- the lines before the rejected one, that one, and the lines after it
  let start : Progress := { assembler := { identity } }
  obtain ⟨before, hbefore, hpre⟩ :=
    Progress.exists_addLines_withDiagnostics toolkit context start pre
  let reached := start.addLines toolkit context pre
  let past := reached.addLine toolkit context line
  obtain ⟨after, hafter, hpost⟩ :=
    Progress.exists_addLines_withDiagnostics toolkit context past post
  have hreached : reached.diagnostics = before := congrArg Progress.diagnostics (hpre [])
  have hpast : past.diagnostics
      = before ++ Progress.found toolkit context reached.openBlocks line := by
    rw [Progress.diagnostics_addLine, hreached]
  have hscript : readScript toolkit context identity script
      = past.addLines toolkit context post := by
    rw [readScript, Text.numberedLines, hlines, Progress.addLines, List.foldl_append]
    rfl
  have hread : readScript toolkit context identity other
      = reached.addLines toolkit context post := by
    rw [readScript, Text.numberedLines, hset, Progress.addLines, List.foldl_append,
      List.foldl_cons, Progress.addLine_nil]
    rfl
  have hdiagnostics : (readScript toolkit context identity script).diagnostics
      = before ++ Progress.found toolkit context reached.openBlocks line ++ after := by
    rw [hscript, ← hpast]
    exact congrArg Progress.diagnostics (hpost past.diagnostics)
  have hothers : ∀ d ∈ before ++ after, d.region.start.line ≠ line.number := by
    have hstart : ∀ l ∈ pre ++ post, ∀ {d blocks}, d ∈ Progress.found toolkit context blocks l →
        d.region.start.line ≠ line.number := by
      intro l hl d blocks hd
      rw [Progress.start_line_of_mem_found toolkit context hd]
      exact hne l hl
    intro d hd
    rcases List.mem_append.mp hd with hd | hd
    · obtain ⟨l, hl, blocks, hfound⟩ := hbefore d hd
      exact hstart l (List.mem_append_left post hl) hfound
    · obtain ⟨l, hl, blocks, hfound⟩ := hafter d hd
      exact hstart l (List.mem_append_right pre hl) hfound
  have hfound : Progress.found toolkit context reached.openBlocks line ≠ [] := by
    intro hnil
    obtain ⟨d, hd, hnumber⟩ := hrejected
    rw [hdiagnostics, hnil, List.append_nil] at hd
    exact hothers d hd hnumber
  refine ⟨before, _, after, hdiagnostics, ?_, ?_, hothers⟩
  · have hleft : past.withDiagnostics before = reached := by
      change (reached.addLine toolkit context line).withDiagnostics before = reached
      rw [Progress.addLine_of_found toolkit context hkind hfound, ← hreached]
      rfl
    rw [hread, hscript, ← hpost before, hleft]
  · exact fun d hd => Progress.start_line_of_mem_found toolkit context hd

/-- Without the characters of a rejected line the same is reported for the other lines. -/
theorem allDiagnostics_of_rejected (hline : line ∈ Text.numberedLines script)
    (hkind : (classifyLine (Text.trim line.text)).kind ≠ .blockStart)
    (hrejected : ∃ d ∈ (readScript toolkit context identity script).allDiagnostics,
      d.region.start.line = line.number)
    (hother : Text.splitLines other
      = (Text.splitLines script).set (line.number - 1) []) :
  ∃ ds, readScript toolkit context identity other
      = (readScript toolkit context identity script).withDiagnostics ds
    ∧ (readScript toolkit context identity other).allDiagnostics
      = (readScript toolkit context identity script).allDiagnostics.filter
          (·.region.start.line != line.number)
  := by
  let progress := readScript toolkit context identity script
  let unclosed := progress.openBlocks.reverse.map fun block =>
    Diagnostic.of .unclosedBlock block.region
  have hopen : ∀ d ∈ unclosed, d.region.start.line ≠ line.number := by
    intro d hd
    obtain ⟨block, hblock, rfl⟩ := List.mem_map.mp hd
    exact start_line_ne_of_mem_openBlocks hline hkind (List.mem_reverse.mp hblock)
  have hreported : ∃ d ∈ progress.diagnostics, d.region.start.line = line.number := by
    obtain ⟨d, hd, hnumber⟩ := hrejected
    rcases List.mem_append.mp ((List.mergeSort_perm _ _).mem_iff.mp hd) with hd | hd
    · exact ⟨d, hd, hnumber⟩
    · exact absurd hnumber (hopen d hd)
  obtain ⟨before, found, after, hdiagnostics, hread, hfound, hothers⟩ :=
    exists_readScript_of_rejected hline hkind hreported hother
  refine ⟨before ++ after, hread, ?_⟩
  have hkeep : ∀ {ds : List Diagnostic}, (∀ d ∈ ds, d.region.start.line ≠ line.number) →
      ds.filter (·.region.start.line != line.number) = ds :=
    fun h => List.filter_eq_self.mpr fun d hd => bne_iff_ne.mpr (h d hd)
  have hdrop : found.filter (·.region.start.line != line.number) = [] :=
    List.filter_eq_nil_iff.mpr fun d hd => by simp [hfound d hd]
  obtain ⟨hbefore, hafter⟩ := List.forall_mem_append.mp hothers
  calc (readScript toolkit context identity other).allDiagnostics
      = Diagnostic.sort (before ++ after ++ unclosed) := by
        rw [hread]
        rfl
    _ = Diagnostic.sort ((progress.diagnostics ++ unclosed).filter
          (·.region.start.line != line.number)) := by
        rw [hdiagnostics, List.filter_append, List.filter_append, List.filter_append,
          hkeep hbefore, hdrop, hkeep hafter, hkeep hopen, List.append_nil]
    _ = progress.allDiagnostics.filter (·.region.start.line != line.number) :=
        (Diagnostic.filter_sort _ _).symm

/-- A script is built without the characters of a rejected line to the same document and the
same text, and the same is reported for the other lines. -/
theorem buildScript_of_rejected {build : Build}
    (hbuild : buildScript toolkit context identity script = .ok build)
    (hline : line ∈ Text.numberedLines script)
    (hkind : (classifyLine (Text.trim line.text)).kind ≠ .blockStart)
    (hrejected : ∃ d ∈ build.diagnostics, d.region.start.line = line.number)
    (hother : Text.splitLines other
      = (Text.splitLines script).set (line.number - 1) []) :
  buildScript toolkit context identity other
    = .ok { build with
        diagnostics := build.diagnostics.filter (·.region.start.line != line.number) }
  := by
  rw [diagnostics_of_buildScript hbuild] at hrejected ⊢
  obtain ⟨ds, hread, hdiagnostics⟩ := allDiagnostics_of_rejected hline hkind hrejected hother
  rw [buildScript] at hbuild
  cases htext : (toolkit.renderer context).renderDocument
      (readScript toolkit context identity script).assembler.document.publish.toFragment with
  | error e =>
    rw [htext] at hbuild
    cases hbuild
  | ok text =>
    rw [htext] at hbuild
    cases hbuild
    rw [buildScript, hdiagnostics, hread]
    simp only [Progress.withDiagnostics, htext]
    rfl

/-- A second `else` line is as good as a blank one. -/
theorem buildScript_of_rejected_else :
  ∃ build line, buildScript (.ofScope {}) {} ⟨"", "", 0, .null, false⟩
      "// note\nif true\nelse\n  else\nrunScript(\"x\")\nend".toList = .ok build
    ∧ line ∈ Text.numberedLines
        "// note\nif true\nelse\n  else\nrunScript(\"x\")\nend".toList
    ∧ (classifyLine (Text.trim line.text)).kind ≠ .blockStart
    ∧ (∃ d ∈ build.diagnostics, d.region.start.line = line.number)
    ∧ buildScript (.ofScope {}) {} ⟨"", "", 0, .null, false⟩
        "// note\nif true\nelse\n\nrunScript(\"x\")\nend".toList
      = .ok { build with
          diagnostics := build.diagnostics.filter (·.region.start.line != line.number) }
  := by
  let line : Text.Line := ⟨4, "  else".toList, by decide⟩
  have hline : line ∈ Text.numberedLines
      "// note\nif true\nelse\n  else\nrunScript(\"x\")\nend".toList :=
    .tail _ (.tail _ (.tail _ (.head _)))
  have hkind : (classifyLine (Text.trim line.text)).kind ≠ .blockStart := by decide +kernel
  have hfound : ((buildScript (.ofScope {}) {} ⟨"", "", 0, .null, false⟩
      "// note\nif true\nelse\n  else\nrunScript(\"x\")\nend".toList).toOption.any
        fun build => build.diagnostics.any (·.region.start.line == 4)) = true := by
    decide +kernel
  obtain ⟨build, hbuild, hany⟩ := exists_build_of_any hfound
  have hrejected : ∃ d ∈ build.diagnostics, d.region.start.line = line.number := by
    simpa [line] using hany
  exact ⟨build, line, hbuild, hline, hkind, hrejected,
    buildScript_of_rejected hbuild hline hkind hrejected (by decide +kernel)⟩

end TriggerLang
