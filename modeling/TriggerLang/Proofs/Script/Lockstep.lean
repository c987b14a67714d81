import Mathlib.Data.List.Forall2
import TriggerLang.Proofs.Script.Found

/-!
# The steps of a script

The steps that a line takes and the blocks that are open behind it are known without the
document.  The blocks that are open and those that are being built stay in step, level by
level, so the document accepts every step that a script takes, and nothing of the script is
dropped on the way.
-/

namespace TriggerLang

/-- The block is built in the branch that the lines after its opening have come to. -/
def OpenBlock.InStep (opened : OpenBlock) (block : Block) : Prop :=
  block.slot = some (if opened.hasElse then .elseBranch else .thenBranch)

/-- A block in step takes any fragment, and stays in step. -/
theorem OpenBlock.InStep.exists_gains {opened : OpenBlock} {block : Block}
    (h : opened.InStep block) (fragment : Fragment) :
  ∃ after, block.Gains fragment after ∧ opened.InStep after
  := by
  rw [InStep] at h
  by_cases helse : opened.hasElse = true
  · rw [if_pos helse] at h
    exact ⟨_, .elseAction h, by rw [InStep, if_pos helse]; exact h⟩
  · rw [if_neg helse] at h
    exact ⟨_, .thenAction h, by rw [InStep, if_neg helse]; exact h⟩

namespace Progress

/-! ### Blocks in step -/

section

variable {openBlocks : List OpenBlock} {assembler : Assembler}
  (h : List.Forall₂ OpenBlock.InStep openBlocks assembler.blocks)

include h

/-- Outside any block and in blocks that are in step every action is accepted. -/
theorem accepts_insert (action : Fragment) :
  assembler.Accepts (.insert action)
    ∧ List.Forall₂ OpenBlock.InStep openBlocks (assembler.insertAction action).blocks
  := by
  cases hblocks : assembler.blocks with
  | nil =>
    rw [Assembler.blocks_insertAction_of_nil hblocks]
    exact ⟨by simp [Assembler.Accepts, hblocks], hblocks ▸ h⟩
  | cons block rest =>
    rw [hblocks] at h
    cases h with
    | cons hfirst hrest =>
      obtain ⟨after, hgains, hafter⟩ := hfirst.exists_gains action
      rw [Assembler.insertAction_of_gains hblocks hgains]
      exact ⟨by simpa [Assembler.Accepts, hblocks] using ⟨after, hgains⟩, .cons hafter hrest⟩

theorem acceptsAll_insert (actions : List Fragment) :
  assembler.AcceptsAll (actions.map .insert)
    ∧ List.Forall₂ OpenBlock.InStep openBlocks
      ((actions.map Assembler.Step.insert).foldl Assembler.performed assembler).blocks
  := by
  induction actions generalizing assembler with
  | nil => exact ⟨trivial, h⟩
  | cons action rest ih =>
    obtain ⟨haccepts, hnext⟩ := accepts_insert h action
    obtain ⟨hrest, hlast⟩ := ih hnext
    exact ⟨⟨haccepts, hrest⟩, hlast⟩

/-- A block is opened, and its first branch is begun behind its condition. -/
theorem acceptsAll_open (condition : Option Fragment) (keyword : Text.Region) :
  assembler.AcceptsAll (.open blockKind :: (condition.toList.map .insert ++ [.advance]))
    ∧ List.Forall₂ OpenBlock.InStep (⟨keyword, false⟩ :: openBlocks)
      ((Assembler.Step.open blockKind :: (condition.toList.map .insert ++ [.advance])).foldl
        Assembler.performed assembler).blocks
  := by
  cases condition with
  | none =>
    have hadvance : assembler.openBlock.advance = { assembler with
        blocks := { slot := some .thenBranch } :: assembler.blocks } := rfl
    refine ⟨⟨rfl, ⟨_, rfl, rfl⟩, trivial⟩, ?_⟩
    simp only [Option.toList_none, List.map_nil, List.nil_append, List.foldl_cons, List.foldl_nil,
      Assembler.performed_open_block, Assembler.performed_advance, hadvance]
    exact .cons rfl h
  | some condition =>
    have hgains : Block.Gains condition {} { conditions := condition } := .condition rfl rfl
    have hinsert : assembler.openBlock.insertAction condition = { assembler with
        blocks := { conditions := condition } :: assembler.blocks } :=
      Assembler.insertAction_of_gains rfl hgains
    have hadvance : (assembler.openBlock.insertAction condition).advance = { assembler with
        blocks := { conditions := condition, slot := some .thenBranch } :: assembler.blocks } := by
      rw [hinsert]
      rfl
    refine ⟨⟨rfl, ?_, ?_, trivial⟩, ?_⟩
    · rintro block ⟨⟩
      exact ⟨_, hgains⟩
    · rw [Assembler.performed_insert, Assembler.performed_open_block, hinsert]
      exact ⟨_, rfl, rfl⟩
    · simp only [Option.toList_some, List.map_cons, List.map_nil, List.cons_append,
        List.nil_append, List.foldl_cons, List.foldl_nil, Assembler.performed_open_block,
        Assembler.performed_insert, Assembler.performed_advance, hadvance]
      exact .cons rfl h

/-- The second branch of the innermost block is begun, unless that has been done. -/
theorem acceptsAll_else :
  assembler.AcceptsAll (elseSteps openBlocks)
    ∧ List.Forall₂ OpenBlock.InStep (withElse openBlocks)
      ((elseSteps openBlocks).foldl Assembler.performed assembler).blocks
  := by
  generalize hblocks : assembler.blocks = blocks at h
  cases h with
  | nil =>
    refine ⟨trivial, ?_⟩
    rw [elseSteps, List.foldl_nil, hblocks]
    exact .nil
  | @cons opened block others rest hfirst hrest =>
    rw [OpenBlock.InStep] at hfirst
    cases helse : opened.hasElse with
    | true =>
      rw [helse, if_pos rfl] at hfirst
      refine ⟨by rw [elseSteps, if_pos helse]; trivial, ?_⟩
      rw [elseSteps, if_pos helse, List.foldl_nil, hblocks]
      exact .cons hfirst hrest
    | false =>
      rw [helse, if_neg Bool.false_ne_true] at hfirst
      have hadvance := Assembler.advance_of_next hblocks hfirst rfl
      have hsteps : elseSteps (opened :: others) = [.advance] := by
        rw [elseSteps, if_neg (by simp [helse])]
      rw [hsteps, List.foldl_cons, List.foldl_nil, Assembler.performed_advance, hadvance]
      refine ⟨⟨⟨block, ?_, ?_⟩, trivial⟩, .cons rfl hrest⟩
      · rw [hblocks]
        rfl
      · exact Block.hasNext_iff.mpr ⟨_, _, hfirst, rfl⟩

/-- The innermost block is closed. -/
theorem acceptsAll_end :
  assembler.AcceptsAll (endSteps openBlocks)
    ∧ List.Forall₂ OpenBlock.InStep openBlocks.tail
      ((endSteps openBlocks).foldl Assembler.performed assembler).blocks
  := by
  generalize hblocks : assembler.blocks = blocks at h
  cases h with
  | nil =>
    refine ⟨trivial, ?_⟩
    rw [endSteps, List.isEmpty_nil, if_pos rfl, List.foldl_nil, hblocks]
    exact .nil
  | @cons opened block others rest hfirst hrest =>
    rw [endSteps, List.isEmpty_cons, if_neg Bool.false_ne_true, List.foldl_cons, List.foldl_nil,
      Assembler.performed_close, List.tail_cons]
    cases hrest with
    | nil =>
      rw [Assembler.closeBlock_of_outermost hblocks]
      exact ⟨⟨⟨block, [], hblocks, by simp⟩, trivial⟩, .nil⟩
    | @cons outer parent outers parents houter houters =>
      obtain ⟨after, hgains, hafter⟩ := houter.exists_gains block.build
      rw [Assembler.closeBlock_of_gains hblocks hgains]
      refine ⟨⟨⟨block, _, hblocks, ?_⟩, trivial⟩, .cons hafter houters⟩
      rintro _ ⟨⟩
      exact ⟨after, hgains⟩

/-- Every step of a line is accepted, and the blocks are in step again behind it. -/
theorem acceptsAll_steps (toolkit : Toolkit) (context : Context) (line : Text.Line) :
  assembler.AcceptsAll (steps toolkit context openBlocks line)
    ∧ List.Forall₂ OpenBlock.InStep (openAfter openBlocks line)
      ((steps toolkit context openBlocks line).foldl Assembler.performed assembler).blocks
  := by
  cases hkind : (classifyLine (Text.trim line.text)).kind with
  | blank =>
    simp only [steps, openAfter, hkind]
    exact ⟨trivial, h⟩
  | comment =>
    simp only [steps, openAfter, hkind]
    exact ⟨⟨trivial, trivial⟩, (Assembler.blocks_insertComment assembler _).symm ▸ h⟩
  | trigger =>
    simp only [steps, openAfter, hkind]
    cases (evaluateSource toolkit context (classifyLine (Text.trim line.text)).body
      "").accepted?.filter Fragment.isMapping with
    | none => exact ⟨trivial, h⟩
    | some trigger => exact ⟨⟨trivial, trivial⟩, h⟩
  | blockStart =>
    simp only [steps, openAfter, hkind]
    exact acceptsAll_open h _ _
  | blockElse =>
    simp only [steps, openAfter, hkind]
    exact acceptsAll_else h
  | blockEnd =>
    simp only [steps, openAfter, hkind]
    exact acceptsAll_end h
  | action =>
    simp only [steps, openAfter, hkind]
    exact acceptsAll_insert h _

end

/-! ### Whole scripts -/

section

variable (toolkits : Text.Line → Toolkit) (context : Context)

/-- The progress after lines each of which is read with a toolkit of its own. -/
def addLinesWith (progress : Progress) (lines : List Text.Line) : Progress :=
  lines.foldl (fun progress line => progress.addLine (toolkits line) context line) progress

/-- The steps that lines take after which blocks are open, each read with a toolkit of its
own. -/
def allSteps : List OpenBlock → List Text.Line → List Assembler.Step
  | _, [] => []
  | openBlocks, line :: rest =>
    steps (toolkits line) context openBlocks line ++ allSteps (openAfter openBlocks line) rest

/-- A whole script is read with one toolkit. -/
theorem readScript_eq_addLinesWith (toolkit : Toolkit) (identity : Identity)
    (script : List Char) :
  readScript toolkit context identity script
    = addLinesWith (fun _ => toolkit) context { assembler := { identity } }
        (Text.numberedLines script)
  := rfl

theorem assembler_addLinesWith (progress : Progress) (lines : List Text.Line) :
  (progress.addLinesWith toolkits context lines).assembler
    = (allSteps toolkits context progress.openBlocks lines).foldl Assembler.performed
        progress.assembler
  := by
  induction lines generalizing progress with
  | nil => rfl
  | cons line rest ih =>
    rw [allSteps, List.foldl_append, addLinesWith, List.foldl_cons]
    refine (ih _).trans ?_
    rw [addLine_eq]

/-- Every step of the lines is accepted, and the blocks are in step again behind them. -/
theorem acceptsAll_allSteps (progress : Progress) (lines : List Text.Line)
    (h : List.Forall₂ OpenBlock.InStep progress.openBlocks progress.assembler.blocks) :
  progress.assembler.AcceptsAll (allSteps toolkits context progress.openBlocks lines)
    ∧ List.Forall₂ OpenBlock.InStep (progress.addLinesWith toolkits context lines).openBlocks
      (progress.addLinesWith toolkits context lines).assembler.blocks
  := by
  induction lines generalizing progress with
  | nil => exact ⟨trivial, h⟩
  | cons line rest ih =>
    obtain ⟨hsteps, hnext⟩ := acceptsAll_steps h (toolkits line) context line
    have hline := progress.addLine_eq (toolkits line) context line
    obtain ⟨hrest, hlast⟩ := ih (progress.addLine (toolkits line) context line)
      (by rw [hline]; exact hnext)
    refine ⟨(Assembler.acceptsAll_append _ _ _).mpr ⟨hsteps, ?_⟩, hlast⟩
    rw [hline] at hrest
    exact hrest

/-- Between any two lines of a script, whatever toolkits its lines are read with, the open
blocks are those of the document, one by one, and each is built in the branch that the lines
have come to.  The document has been assembled in steps all of which it accepted, so it has
noted no warning. -/
theorem inStep_between_lines (identity : Identity) (script : List Char) (count : Nat) :
  let lines := (Text.numberedLines script).take count
  let progress := addLinesWith toolkits context { assembler := { identity } } lines
  let steps := allSteps toolkits context [] lines
  progress.openBlocks.length = progress.assembler.depth
    ∧ List.Forall₂ OpenBlock.InStep progress.openBlocks progress.assembler.blocks
    ∧ progress.assembler = Assembler.run identity steps
    ∧ Assembler.AcceptsAll { identity } steps
    ∧ progress.assembler.warnings = []
  := by
  intro lines progress steps
  obtain ⟨haccepts, hblocks⟩ :=
    acceptsAll_allSteps toolkits context { assembler := { identity } } lines .nil
  have hrun : progress.assembler = Assembler.run identity steps :=
    assembler_addLinesWith toolkits context { assembler := { identity } } lines
  refine ⟨hblocks.length_eq, hblocks, hrun, haccepts, ?_⟩
  rw [hrun]
  exact Assembler.warnings_of_acceptsAll haccepts

end

end Progress

end TriggerLang
