import TriggerLang.Document.Assembler
import TriggerLang.Render.Document
import TriggerLang.Script.Classified
import TriggerLang.Script.Outcome

/-!
# Building documents

A script is built line by line.  What flows from one line to the next is the document
assembled so far, the blocks that are open, and the diagnostics.  A line with diagnostics
is left out; only a block whose condition is refused is kept, without a condition.  A
block that is never closed is left out with all that follows in it.
-/

namespace TriggerLang

/-- A block whose end has not been read. -/
structure OpenBlock where
  /-- The keyword that opened the block. -/
  region : Text.Region
  /-- The second branch has begun. -/
  hasElse : Bool := false

/-- What is known of a script after some of its lines. -/
structure Progress where
  assembler : Assembler
  /-- The open blocks, the innermost one first. -/
  openBlocks : List OpenBlock := []
  /-- The diagnostics, in the order in which they were found. -/
  diagnostics : List Diagnostic := []

namespace Progress

/-- The progress with more diagnostics. -/
def report (progress : Progress) (diagnostics : List Diagnostic) : Progress :=
  { progress with diagnostics := progress.diagnostics ++ diagnostics }

/-- The region of the keyword of a line. -/
def keywordRegion (line : Text.Line) (indent : Nat) (classified : ClassifiedLine) :
    Text.Region :=
  .onLine line.number line.number_pos indent classified.bodyOffset

/-- The progress after a trigger. -/
def addTrigger (progress : Progress) (outcome : Outcome) : Progress :=
  match outcome.accepted? with
  | some fragment =>
    if fragment.isMapping then
      { progress with assembler := progress.assembler.insertTrigger fragment }
    else
      progress
  | none => progress

/-- The progress after an action. -/
def addAction (progress : Progress) (outcome : Outcome) : Progress :=
  match outcome.accepted? with
  | some fragment => { progress with assembler := progress.assembler.insertAction fragment }
  | none => progress

/-- The progress after a line that opens a block with a condition. -/
def openBlock (progress : Progress) (keyword : Text.Region) (outcome : Outcome) : Progress :=
  let opened := addAction { progress with assembler := progress.assembler.openBlock } outcome
  { opened with
    assembler := opened.assembler.advance
    openBlocks := ⟨keyword, false⟩ :: opened.openBlocks }

/-- The progress after a line that goes on with the second branch of a block. -/
def beginElse (progress : Progress) (keyword : Text.Region) : Progress :=
  match progress.openBlocks with
  | [] => progress.report [.of .unmatchedElse keyword]
  | block :: rest =>
    if block.hasElse then
      progress.report [.of .duplicateElse keyword]
    else
      { progress with
        assembler := progress.assembler.advance
        openBlocks := { block with hasElse := true } :: rest }

/-- The progress after a line that closes a block. -/
def closeBlock (progress : Progress) (keyword : Text.Region) : Progress :=
  match progress.openBlocks with
  | [] => progress.report [.of .unmatchedEnd keyword]
  | _ :: rest =>
    { progress with assembler := progress.assembler.closeBlock, openBlocks := rest }

/-- The progress after one more line. -/
def addLine (toolkit : Toolkit) (context : Context) (progress : Progress) (line : Text.Line) :
    Progress :=
  let indent := Text.indent line.text
  let classified := classifyLine (Text.trim line.text)
  match classified.kind with
  | .blank => progress
  | .comment =>
    { progress with
      assembler := progress.assembler.insertComment (String.ofList classified.body) }
  | .trigger =>
    let outcome := evaluateSource toolkit context classified.body ""
    (progress.report (placeAll line indent outcome.diagnostics)).addTrigger outcome
  | .blockStart =>
    let outcome := evaluate toolkit context classified.body booleanType
    (progress.report
      (placeAll line (indent + classified.bodyOffset) outcome.diagnostics)).openBlock
        (keywordRegion line indent classified) outcome
  | .blockElse => progress.beginElse (keywordRegion line indent classified)
  | .blockEnd => progress.closeBlock (keywordRegion line indent classified)
  | .action =>
    let outcome := evaluate toolkit context classified.body context.defaultReturnType
    (progress.report (placeAll line indent outcome.diagnostics)).addAction outcome

/-- The progress after all lines. -/
def addLines (toolkit : Toolkit) (context : Context) (progress : Progress)
    (lines : List Text.Line) : Progress :=
  lines.foldl (addLine toolkit context) progress

/-- The diagnostics of a whole script, in the order in which they are reported; the blocks
still open are reported from the outside in. -/
def allDiagnostics (progress : Progress) : List Diagnostic :=
  Diagnostic.sort (progress.diagnostics ++
    progress.openBlocks.reverse.map fun block => .of .unclosedBlock block.region)

end Progress

/-- A script that has been built. -/
structure Build where
  document : Document
  diagnostics : List Diagnostic
  /-- The text that stands for the document. -/
  text : List Char

/-- The renderer of a toolkit that writes strings as the bare words of a context, if there
are any. -/
def Toolkit.renderer (toolkit : Toolkit) (context : Context) : Renderer :=
  if context.bareWords.isEmpty then
    toolkit.plainRenderer
  else
    { toolkit.plainRenderer with bareWords := context.bareWords }

/-- The usual toolkit writes strings as bare words only where the context has some. -/
theorem Toolkit.renderer_ofScope (scope : Parse.Scope) (context : Context) :
  (Toolkit.ofScope scope).renderer context = ⟨scope.catalog, context.bareWords⟩
  := by
  rw [renderer]
  split
  · rename_i h
    rw [List.isEmpty_iff.mp h]
    rfl
  · rfl

/-- The progress at the end of a script. -/
def readScript (toolkit : Toolkit) (context : Context) (identity : Identity)
    (script : List Char) : Progress :=
  Progress.addLines toolkit context { assembler := { identity } } (Text.numberedLines script)

/-- Builds a script. -/
def buildScript (toolkit : Toolkit) (context : Context) (identity : Identity)
    (script : List Char) : Except RenderError Build :=
  let progress := readScript toolkit context identity script
  let document := progress.assembler.document.publish
  ((toolkit.renderer context).renderDocument document.toFragment).map fun text =>
    ⟨document, progress.allDiagnostics, text⟩

section

variable {toolkit : Toolkit} {context : Context} {identity : Identity} {script : List Char}
  {build : Build}

/-- A script is built to the document that has been assembled, if that can be rendered. -/
theorem buildScript_eq_ok_iff :
  buildScript toolkit context identity script = .ok build
    ↔ ∃ lines, (toolkit.renderer context).documentLines
        (readScript toolkit context identity script).assembler.document.publish.toFragment
          = .ok lines
      ∧ build = {
        document := (readScript toolkit context identity script).assembler.document.publish
        diagnostics := (readScript toolkit context identity script).allDiagnostics
        text := ['\n'].intercalate lines }
  := by
  rw [buildScript, Renderer.renderDocument]
  cases (toolkit.renderer context).documentLines
      (readScript toolkit context identity script).assembler.document.publish.toFragment with
  | error e => exact ⟨nofun, nofun⟩
  | ok lines =>
    constructor
    · rintro ⟨⟩
      exact ⟨_, rfl, rfl⟩
    · rintro ⟨_, ⟨⟩, rfl⟩
      rfl

/-- What a script is built as, if it can be built. -/
theorem eq_of_buildScript (h : buildScript toolkit context identity script = .ok build) :
  build.document = (readScript toolkit context identity script).assembler.document.publish
    ∧ build.diagnostics = (readScript toolkit context identity script).allDiagnostics
  := by
  obtain ⟨lines, -, rfl⟩ := buildScript_eq_ok_iff.mp h
  exact ⟨rfl, rfl⟩

end

end TriggerLang
