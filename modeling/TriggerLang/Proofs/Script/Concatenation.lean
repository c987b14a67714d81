import TriggerLang.Proofs.Diagnostic.Order
import TriggerLang.Proofs.Render.Published
import TriggerLang.Proofs.Script.Lockstep
import TriggerLang.Proofs.Script.Structure
import TriggerLang.Proofs.Text.Line

/-!
# Scripts one after the other

Lines of a script that come after others do what they do at the start of a script, behind what
the lines before them have left, provided that those have closed their blocks and leave no
comment waiting.  So two scripts that are joined by a line feed are built to the document with
the triggers and actions of both, and the diagnostics of the second one are found as many
lines further down as the first one has.
-/

namespace TriggerLang

/-- The same open block further down, below `n` other lines. -/
def OpenBlock.below (block : OpenBlock) (n : Nat) : OpenBlock :=
  { block with region := block.region.below n }

namespace Assembler

/-- What is assembled behind a part of a document. -/
def behind (first assembler : Assembler) : Assembler :=
  { assembler with
    triggers := first.triggers ++ assembler.triggers
    actions := first.actions ++ assembler.actions
    warnings := first.warnings ++ assembler.warnings }

variable (first assembler : Assembler)

theorem insertComment_behind (comment : String) :
  (first.behind assembler).insertComment comment = first.behind (assembler.insertComment comment)
  := by
  by_cases hcomment : comment = ""
  · simp [insertComment, hcomment]
  · by_cases hpending : assembler.pendingComment = "" <;>
      simp [insertComment, behind, hcomment, hpending]

theorem advance_behind :
  (first.behind assembler).advance = first.behind assembler.advance
  := by
  obtain ⟨identity, triggers, actions, blocks, pending, warnings⟩ := assembler
  cases blocks with
  | nil => simp [advance, behind, warn]
  | cons block rest =>
    by_cases hnext : block.hasNext = true <;> simp [advance, behind, warn, hnext]

theorem insertAction_behind (action : Fragment) :
  (first.behind assembler).insertAction action = first.behind (assembler.insertAction action)
  := by
  obtain ⟨identity, triggers, actions, blocks, pending, warnings⟩ := assembler
  cases blocks with
  | nil =>
    by_cases hattach : (action.isMapping && pending != "") = true <;>
      simp only [insertAction, appendAction, behind, hattach] <;> simp
  | cons block rest =>
    cases hinsert : block.insert? action <;> simp [insertAction, behind, warn, hinsert]

theorem closeBlock_behind :
  (first.behind assembler).closeBlock = first.behind assembler.closeBlock
  := by
  obtain ⟨identity, triggers, actions, blocks, pending, warnings⟩ := assembler
  cases blocks with
  | nil => simp [closeBlock, behind, warn]
  | cons block rest =>
    cases rest with
    | nil => simp [closeBlock, behind]
    | cons parent rest =>
      cases hinsert : parent.insert? block.build <;> simp [closeBlock, behind, warn, hinsert]

/-- A step does the same behind a part of a document. -/
theorem performed_behind (step : Step) :
  (first.behind assembler).performed step = first.behind (assembler.performed step)
  := by
  cases step with
  | trigger trigger => simp [insertTrigger, behind]
  | comment text => exact insertComment_behind first assembler text
  | «open» kind =>
    by_cases hkind : kind = blockKind <;>
      simp [performed, perform, openStructure, Block.ofKind?, hkind, Except.map, behind]
  | advance => exact advance_behind first assembler
  | insert action => exact insertAction_behind first assembler action
  | close => exact closeBlock_behind first assembler

theorem foldl_performed_behind (steps : List Step) :
  steps.foldl performed (first.behind assembler)
    = first.behind (steps.foldl performed assembler)
  := by
  induction steps generalizing assembler with
  | nil => rfl
  | cons step rest ih => rw [List.foldl_cons, List.foldl_cons, performed_behind, ih]

theorem triggers_publish_behind :
  (first.behind assembler).document.publish.triggers
    = first.document.publish.triggers ++ assembler.document.publish.triggers
  := List.map_append

theorem actions_publish_behind :
  (first.behind assembler).document.publish.actions
    = first.document.publish.actions ++ assembler.document.publish.actions
  := by
  simp only [Document.publish, document, behind, Fragment.publishAll_eq_map, List.map_append]

end Assembler

namespace Progress

variable (toolkit : Toolkit) (context : Context)

/-! ### Lines further down -/

section

variable (openBlocks : List OpenBlock) (line : Text.Line) (n : Nat)

/-- The steps of a line do not depend on where the line is. -/
theorem steps_below :
  steps toolkit context (openBlocks.map (·.below n)) (line.below n)
    = steps toolkit context openBlocks line
  := by
  have helse : elseSteps (openBlocks.map (·.below n)) = elseSteps openBlocks := by
    cases openBlocks <;> rfl
  have hend : endSteps (openBlocks.map (·.below n)) = endSteps openBlocks := by
    cases openBlocks <;> rfl
  simp only [steps, Text.Line.below, helse, hend]

theorem openAfter_below :
  openAfter (openBlocks.map (·.below n)) (line.below n)
    = (openAfter openBlocks line).map (·.below n)
  := by
  have helse : withElse (openBlocks.map (·.below n)) = (withElse openBlocks).map (·.below n) := by
    cases openBlocks <;> rfl
  have hend : (openBlocks.map (·.below n)).tail = openBlocks.tail.map (·.below n) := by
    cases openBlocks <;> rfl
  simp only [openAfter, Text.Line.below, helse, hend]
  cases (classifyLine (Text.trim line.text)).kind <;> rfl

theorem placeAll_below (indent : Nat) (ds : List Diagnostic) :
  placeAll (line.below n) indent ds = (placeAll line indent ds).map (·.below n)
  := by
  rw [placeAll, placeAll, List.map_map]
  apply List.map_congr_left
  intro d _
  exact congrArg (fun region => { d with region })
    (d.region.place_below line.number_pos (line.below n).number_pos indent)

/-- What is found wrong with a line is found as far down as the line is. -/
theorem found_below :
  found toolkit context (openBlocks.map (·.below n)) (line.below n)
    = (found toolkit context openBlocks line).map (·.below n)
  := by
  have htext : (line.below n).text = line.text := rfl
  cases hkind : (classifyLine (Text.trim line.text)).kind with
  | blank => simp [found, htext, hkind]
  | comment => simp [found, htext, hkind]
  | trigger => simp only [found, htext, hkind, placeAll_below]
  | blockStart => simp only [found, htext, hkind, placeAll_below]
  | blockElse =>
    simp only [found, htext, hkind]
    cases openBlocks with
    | nil => rfl
    | cons block rest =>
      obtain ⟨region, hasElse⟩ := block
      cases hasElse <;> rfl
  | blockEnd =>
    simp only [found, htext, hkind]
    cases openBlocks <;> rfl
  | action => simp only [found, htext, hkind, placeAll_below]

end

/-! ### Lines behind others -/

/-- The progress of lines that come after `n` others, behind what those have left. -/
def behind (first : Progress) (n : Nat) (progress : Progress) : Progress where
  assembler := first.assembler.behind progress.assembler
  openBlocks := progress.openBlocks.map (·.below n)
  diagnostics := first.diagnostics ++ progress.diagnostics.map (·.below n)

variable (first : Progress) (n : Nat)

/-- Where no block is open and no comment waits, what comes next is behind what there is. -/
theorem behind_start (hopen : first.openBlocks = []) (hblocks : first.assembler.blocks = [])
    (hcomment : first.assembler.pendingComment = "") :
  first.behind n { assembler := { identity := first.assembler.identity } } = first
  := by
  obtain ⟨⟨identity, triggers, actions, blocks, pending, warnings⟩, openBlocks, ds⟩ := first
  cases hopen
  cases hblocks
  cases hcomment
  simp [behind, Assembler.behind]

/-- A line does the same behind what other lines have left. -/
theorem addLine_behind (progress : Progress) (line : Text.Line) :
  (first.behind n progress).addLine toolkit context (line.below n)
    = first.behind n (progress.addLine toolkit context line)
  := by
  rw [addLine_eq, addLine_eq]
  simp only [behind, steps_below, openAfter_below, found_below, List.map_append,
    List.append_assoc, Assembler.foldl_performed_behind]

theorem addLines_behind (progress : Progress) (lines : List Text.Line) :
  (first.behind n progress).addLines toolkit context (lines.map (·.below n))
    = first.behind n (progress.addLines toolkit context lines)
  := by
  induction lines generalizing progress with
  | nil => rfl
  | cons line rest ih =>
    rw [List.map_cons, addLines, List.foldl_cons, addLine_behind]
    exact ih _

/-- What is reported for lines behind others, which have closed their blocks, comes after what
is reported for those. -/
theorem allDiagnostics_behind (progress : Progress) (hopen : first.openBlocks = [])
    (h : ∀ d ∈ first.diagnostics, d.region.start.line ≤ n) :
  (first.behind n progress).allDiagnostics
    = first.allDiagnostics ++ progress.allDiagnostics.map (·.below n)
  := by
  have hfirst : first.allDiagnostics = Diagnostic.sort first.diagnostics := by
    rw [allDiagnostics, hopen, List.reverse_nil, List.map_nil, List.append_nil]
  rw [hfirst, allDiagnostics, allDiagnostics, ← Diagnostic.sort_append_below h]
  simp only [behind, List.map_append, List.append_assoc, ← List.map_reverse, List.map_map]
  rfl

end Progress

/-! ### Rendering one after the other -/

namespace Renderer

variable (renderer : Renderer)

/-- Actions are rendered one after the other. -/
theorem listLines_append (depth : Nat) (actions others : List Fragment) :
  renderer.listLines depth (actions ++ others) = (do
    let lines ← renderer.listLines depth actions
    return lines ++ (← renderer.listLines depth others))
  := by
  induction actions with
  | nil =>
    rw [List.nil_append, listLines]
    cases renderer.listLines depth others <;> rfl
  | cons action rest ih =>
    rw [List.cons_append, listLines, listLines, ih]
    cases renderer.actionLines depth action with
    | error e => rfl
    | ok lines =>
      cases renderer.listLines depth rest with
      | error e => rfl
      | ok more =>
        cases renderer.listLines depth others with
        | error e => rfl
        | ok last => exact congrArg Except.ok (List.append_assoc lines more last).symm

/-- A document with the triggers and the actions of two that can be rendered can be rendered. -/
theorem exists_documentLines_append {first second whole : Document}
    (htriggers : whole.triggers = first.triggers ++ second.triggers)
    (hactions : whole.actions = first.actions ++ second.actions)
    {lines others : List (List Char)}
    (hfirst : renderer.documentLines first.toFragment = .ok lines)
    (hsecond : renderer.documentLines second.toFragment = .ok others) :
  ∃ all, renderer.documentLines whole.toFragment = .ok all
  := by
  obtain ⟨ts, hts, as, has, -⟩ := (documentLines_eq_ok_iff renderer).mp hfirst
  obtain ⟨us, hus, bs, hbs, -⟩ := (documentLines_eq_ok_iff renderer).mp hsecond
  refine ⟨_, (documentLines_eq_ok_iff renderer).mpr ⟨ts ++ us, ?_, as ++ bs, ?_, rfl⟩⟩
  · rw [htriggers, List.mapM_append, hts, hus]
    rfl
  · rw [hactions, listLines_append, has, hbs]
    rfl

end Renderer

/-! ### Whole scripts -/

variable {toolkit : Toolkit} {context : Context} {identity : Identity}
  {first second : List Char} {a b : Build}

/-- What is found wrong with a script starts on one of its lines. -/
theorem start_line_le_of_mem_diagnostics {d : Diagnostic}
    (h : d ∈ (readScript toolkit context identity first).diagnostics) :
  d.region.start.line ≤ (Text.splitLines first).length
  := by
  obtain ⟨es, hes, hrun⟩ := Progress.exists_addLines_withDiagnostics toolkit context
    { assembler := { identity } } (Text.numberedLines first)
  have hdiagnostics : (readScript toolkit context identity first).diagnostics = es :=
    congrArg Progress.diagnostics (hrun [])
  obtain ⟨line, hline, openBlocks, hfound⟩ := hes d (hdiagnostics ▸ h)
  rw [Progress.start_line_of_mem_found toolkit context hfound]
  simpa using Text.le_of_mem_numberFrom hline

/-- No block of the document is open where no block of the script is. -/
theorem blocks_eq_nil
    (h : (readScript toolkit context identity first).openBlocks = []) :
  (readScript toolkit context identity first).assembler.blocks = []
  := by
  have hstep := (Progress.acceptsAll_allSteps (fun _ => toolkit) context
    { assembler := { identity } } (Text.numberedLines first) .nil).2
  rw [← Progress.readScript_eq_addLinesWith, h] at hstep
  exact List.forall₂_nil_left_iff.mp hstep

/-- A script below another one, which has closed its blocks and leaves no comment waiting, is
read as it is on its own. -/
theorem readScript_append (hlast : first.getLast? ≠ some '\r')
    (hopen : (readScript toolkit context identity first).openBlocks = [])
    (hcomment : (readScript toolkit context identity first).assembler.pendingComment = "") :
  readScript toolkit context identity (first ++ '\n' :: second)
    = (readScript toolkit context identity first).behind (Text.splitLines first).length
      (readScript toolkit context identity second)
  := by
  let reached := readScript toolkit context identity first
  let n := (Text.splitLines first).length
  have hreached : reached.behind n { assembler := { identity } } = reached := by
    have hidentity : reached.assembler.identity = identity := Script.addLines_identity _ _ _ _
    rw [← hidentity]
    exact reached.behind_start n hopen (blocks_eq_nil hopen) hcomment
  calc
    readScript toolkit context identity (first ++ '\n' :: second)
    _ = reached.addLines toolkit context ((Text.numberedLines second).map (·.below n)) := by
        rw [readScript, Text.numberedLines_append hlast, Progress.addLines, List.foldl_append]
        rfl
    _ = (reached.behind n { assembler := { identity } }).addLines toolkit context
          ((Text.numberedLines second).map (·.below n)) := by rw [hreached]
    _ = reached.behind n (readScript toolkit context identity second) :=
        Progress.addLines_behind toolkit context reached n _ _

/-- Two scripts are built one after the other, if the first one closes its blocks and leaves no
comment waiting, to the triggers and the actions of both; what is reported for the second one
comes after what is reported for the first one, as many lines further down as that one has. -/
theorem buildScript_append (hlast : first.getLast? ≠ some '\r')
    (hopen : (readScript toolkit context identity first).openBlocks = [])
    (hcomment : (readScript toolkit context identity first).assembler.pendingComment = "")
    (hfirst : buildScript toolkit context identity first = .ok a)
    (hsecond : buildScript toolkit context identity second = .ok b) :
  ∃ whole, buildScript toolkit context identity (first ++ '\n' :: second) = .ok whole
    ∧ whole.document.triggers = a.document.triggers ++ b.document.triggers
    ∧ whole.document.actions = a.document.actions ++ b.document.actions
    ∧ whole.diagnostics
      = a.diagnostics ++ b.diagnostics.map (·.below (Text.splitLines first).length)
  := by
  obtain ⟨lines, hlines, rfl⟩ := buildScript_eq_ok_iff.mp hfirst
  obtain ⟨others, hothers, rfl⟩ := buildScript_eq_ok_iff.mp hsecond
  let n := (Text.splitLines first).length
  obtain ⟨all, hall⟩ := Renderer.exists_documentLines_append (toolkit.renderer context)
    (Assembler.triggers_publish_behind _ _) (Assembler.actions_publish_behind _ _) hlines hothers
  have hread : readScript toolkit context identity (first ++ '\n' :: second)
      = (readScript toolkit context identity first).behind n
        (readScript toolkit context identity second) :=
    readScript_append hlast hopen hcomment
  refine ⟨_, buildScript_eq_ok_iff.mpr ⟨all, ?_, rfl⟩, ?_, ?_, ?_⟩ <;> rw [hread]
  · exact hall
  · exact Assembler.triggers_publish_behind _ _
  · exact Assembler.actions_publish_behind _ _
  · exact Progress.allDiagnostics_behind _ n _ hopen fun d hd =>
      start_line_le_of_mem_diagnostics hd

/-- A script with a rejected condition, whose lines do not end in line feeds alone. -/
def ghostScript : List Char :=
  "@gameStart\r\nif ghost\r\nelse\r\nend".toList

/-- A script with a stray `else`. -/
def strayScript : List Char :=
  "else\nrunScript(\"x\")".toList

/-- A script with a stray `else` is built below one with a rejected condition. -/
theorem buildScript_append_strayScript :
  ∃ a b, buildScript (.ofScope {}) {} ⟨"", "", 0, .null, false⟩ ghostScript = .ok a
    ∧ buildScript (.ofScope {}) {} ⟨"", "", 0, .null, false⟩ strayScript = .ok b
    ∧ ∃ whole, buildScript (.ofScope {}) {} ⟨"", "", 0, .null, false⟩
        (ghostScript ++ '\n' :: strayScript) = .ok whole
      ∧ whole.document.triggers = a.document.triggers ++ b.document.triggers
      ∧ whole.document.actions = a.document.actions ++ b.document.actions
      ∧ whole.diagnostics
        = a.diagnostics ++ b.diagnostics.map (·.below (Text.splitLines ghostScript).length)
  := by
  have hlast : ghostScript.getLast? ≠ some '\r' := by decide
  have hopen : (readScript (.ofScope {}) {} ⟨"", "", 0, .null, false⟩
      ghostScript).openBlocks = [] := List.isEmpty_iff.mp (by decide +kernel)
  have hcomment : (readScript (.ofScope {}) {} ⟨"", "", 0, .null, false⟩
      ghostScript).assembler.pendingComment = "" := by decide +kernel
  have hghost : ((buildScript (.ofScope {}) {} ⟨"", "", 0, .null, false⟩
      ghostScript).toOption.any fun build => !build.diagnostics.isEmpty) = true := by
    decide +kernel
  have hstray : ((buildScript (.ofScope {}) {} ⟨"", "", 0, .null, false⟩
      strayScript).toOption.any fun build => !build.diagnostics.isEmpty) = true := by
    decide +kernel
  obtain ⟨a, hfirst, -⟩ := exists_build_of_any hghost
  obtain ⟨b, hsecond, -⟩ := exists_build_of_any hstray
  exact ⟨a, b, hfirst, hsecond, buildScript_append hlast hopen hcomment hfirst hsecond⟩

end TriggerLang
