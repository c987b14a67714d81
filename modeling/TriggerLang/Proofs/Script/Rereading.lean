import TriggerLang.Proofs.Script.Accepted
import TriggerLang.Proofs.Script.Structure

/-!
# Rereading rendered scripts

The lines of a tree are rendered from its fragment.  Wherever they are read again they insert
that fragment, and leave the blocks around them alone; all that they can add are diagnostics of
conditions that had been rejected.  A comment that is attached to an action is rendered above
it, and waits for it when it is read again.
-/

namespace TriggerLang.Script

variable {scope : Parse.Scope} {context : Context}

/-! ### Places -/

/-- Outside any block, with no comment waiting. -/
structure Outside (assembler : Assembler) : Prop where
  pendingComment : assembler.pendingComment = ""
  blocks : assembler.blocks = []

/-- Outside any block or in a branch of one, with no comment waiting. -/
structure Ready (assembler : Assembler) : Prop where
  pendingComment : assembler.pendingComment = ""
  branch : ∀ block ∈ assembler.blocks.head?,
    block.slot = some .thenBranch ∨ block.slot = some .elseBranch

theorem Outside.ready {assembler : Assembler} (h : Outside assembler) :
  Ready assembler
  := by
  refine ⟨h.pendingComment, ?_⟩
  rw [h.blocks]
  rintro block ⟨⟩

theorem Outside.insertAction_eq {assembler : Assembler} (h : Outside assembler)
    (action : Fragment) :
  assembler.insertAction action
    = { assembler with actions := assembler.actions ++ [action] }
  := by
  simp [Assembler.insertAction, Assembler.appendAction, h.pendingComment, h.blocks]

theorem Outside.insertAction {assembler : Assembler} (h : Outside assembler)
    (action : Fragment) :
  Outside (assembler.insertAction action)
  := by
  rw [h.insertAction_eq]
  exact ⟨h.pendingComment, h.blocks⟩

theorem Ready.insertAction {assembler : Assembler} (h : Ready assembler) (action : Fragment) :
  Ready (assembler.insertAction action)
  := by
  obtain ⟨hpending, hbranch⟩ := h
  cases hblocks : assembler.blocks with
  | nil => exact (Outside.insertAction ⟨hpending, hblocks⟩ action).ready
  | cons block rest =>
    rw [Assembler.insertAction, hblocks]
    rw [hblocks] at hbranch
    rcases hbranch block rfl with hslot | hslot
    · simp only [Block.insert?, hslot]
      exact ⟨hpending, by rintro _ ⟨⟩; exact .inl rfl⟩
    · simp only [Block.insert?, hslot]
      exact ⟨hpending, by rintro _ ⟨⟩; exact .inr rfl⟩

/-! ### Reading lines again -/

/-- Wherever the lines are read at a place, they change the assembler in one way and leave the
open blocks alone; they are only reported if something is not in order. -/
def Rereads (scope : Parse.Scope) (context : Context) (inOrder : Prop)
    (place : Assembler → Prop) (lines : List (List Char)) (change : Assembler → Assembler) :
    Prop :=
  ∀ (progress : Progress) (number : Nat), place progress.assembler →
    ∃ diagnostics, (inOrder → diagnostics = [])
      ∧ progress.addLines (.ofScope scope) context (Text.numberFrom number lines)
        = Progress.report { progress with assembler := change progress.assembler } diagnostics

variable {inOrder : Prop} {place : Assembler → Prop} {lines others : List (List Char)}
  {change next : Assembler → Assembler}

theorem addLines_cons (progress : Progress) (number : Nat) (text : List Char)
    (rest : List (List Char)) :
  progress.addLines (.ofScope scope) context (Text.numberFrom number (text :: rest))
    = (progress.addLine (.ofScope scope) context ⟨number + 1, text, Nat.succ_pos number⟩).addLines
        (.ofScope scope) context (Text.numberFrom (number + 1) rest)
  := rfl

theorem addLines_append (progress : Progress) (number : Nat) (lines others : List (List Char)) :
  progress.addLines (.ofScope scope) context (Text.numberFrom number (lines ++ others))
    = (progress.addLines (.ofScope scope) context (Text.numberFrom number lines)).addLines
        (.ofScope scope) context (Text.numberFrom (number + lines.length) others)
  := by
  rw [Text.numberFrom_append, Progress.addLines, List.foldl_append]
  rfl

namespace Rereads

theorem nil :
  Rereads scope context inOrder place [] id
  := by
  intro progress number _
  refine ⟨[], fun _ => rfl, ?_⟩
  rw [Progress.report, List.append_nil]
  rfl

/-- Lines after lines that stay at the place. -/
theorem append (h : Rereads scope context inOrder place lines change)
    (hothers : Rereads scope context inOrder place others next)
    (hplace : ∀ assembler, place assembler → place (change assembler)) :
  Rereads scope context inOrder place (lines ++ others) (next ∘ change)
  := by
  intro progress number hprogress
  obtain ⟨ds, hds, hfirst⟩ := h progress number hprogress
  obtain ⟨ds', hds', hsecond⟩ := hothers
    (Progress.report { progress with assembler := change progress.assembler } ds)
    (number + lines.length) (hplace _ hprogress)
  refine ⟨ds ++ ds', fun hin => by rw [hds hin, hds' hin, List.append_nil], ?_⟩
  rw [addLines_append, hfirst, hsecond]
  simp [Progress.report]

/-- Lines that are read at a narrower place, where the change is another one. -/
theorem imp {narrower : Assembler → Prop} (h : Rereads scope context inOrder place lines change)
    (hplace : ∀ assembler, narrower assembler → place assembler)
    (hchange : ∀ assembler, narrower assembler → change assembler = next assembler) :
  Rereads scope context inOrder narrower lines next
  := by
  intro progress number hprogress
  obtain ⟨ds, hds, hlines⟩ := h progress number (hplace _ hprogress)
  exact ⟨ds, hds, by rw [hlines, hchange _ hprogress]⟩

/-- A single line. -/
theorem line {text : List Char}
    (h : ∀ (progress : Progress) (line : Text.Line), line.text = text → place progress.assembler →
      ∃ diagnostics, (inOrder → diagnostics = [])
        ∧ progress.addLine (.ofScope scope) context line
          = Progress.report { progress with assembler := change progress.assembler }
            diagnostics) :
  Rereads scope context inOrder place [text] change
  := fun progress number hprogress => h progress ⟨number + 1, text, Nat.succ_pos number⟩ rfl hprogress

end Rereads

/-! ### Single lines -/

/-- The margin of a line is trimmed off. -/
theorem trim_indentation {text : List Char} (h : Text.Trimmed text) (depth : Nat) :
  Text.trim (Renderer.indentation depth ++ text) = text
  := by
  apply h.trim_append
  intro c hc
  rw [Renderer.indentation] at hc
  rw [List.eq_of_mem_replicate hc]
  decide

theorem unbroken_indentation (depth : Nat) :
  Text.Unbroken (Renderer.indentation depth)
  := by
  intro c hc
  rw [Renderer.indentation] at hc
  rw [List.eq_of_mem_replicate hc]
  decide

theorem diagnostics_of_accepted {outcome : Outcome} {p : Fragment}
    (h : outcome.accepted? = some p) :
  outcome.diagnostics = []
  := by
  rw [Outcome.accepted?] at h
  split at h
  · rwa [List.isEmpty_iff] at *
  · cases h

/-- An action is inserted again. -/
theorem rereads_action {p : Fragment} {text : List Char}
    (h : LastingAction scope context p text) (depth : Nat) :
  Rereads scope context inOrder (fun _ => True) [Renderer.indentation depth ++ text]
    (·.insertAction p)
  := by
  apply Rereads.line
  intro progress line hline _
  have htrim : Text.trim line.text = text := hline ▸ trim_indentation h.trimmed depth
  have haccepted := h.accepted text rfl
  refine ⟨[], fun _ => rfl, ?_⟩
  simp only [Progress.addLine, htrim, h.classified]
  rw [diagnostics_of_accepted haccepted, Progress.addAction, haccepted]
  rfl

/-- A trigger is declared again. -/
theorem rereads_trigger {p : Fragment} {name : List Char}
    (h : LastingTrigger scope context p name) :
  Rereads scope context inOrder (fun _ => True) ['@' :: name] (·.insertTrigger p)
  := by
  apply Rereads.line
  intro progress line hline _
  obtain ⟨start, c, hname, hc⟩ := h.isName.neat.trimmed.ends
  have htrimmed : Text.Trimmed ('@' :: name) :=
    ⟨⟨'@', name, rfl, by decide⟩, ⟨'@' :: start, c, by rw [hname, List.cons_append], hc⟩⟩
  have htrim : Text.trim line.text = '@' :: name := hline ▸ htrimmed.trim_eq
  have hmapping : p.isMapping = true := by
    rw [h.eq_triggerOf]
    rfl
  refine ⟨[], fun _ => rfl, ?_⟩
  simp only [Progress.addLine, htrim, classifyLine_trigger]
  rw [diagnostics_of_accepted h.accepted, Progress.addTrigger, h.accepted]
  simp only [hmapping, if_true]
  rfl

/-- The lines of a comment are gathered again. -/
theorem rereads_comment {pieces : List (List Char)}
    (hpieces : ∀ piece ∈ pieces, Text.Trimmed piece) (depth : Nat) :
  Rereads scope context inOrder (fun _ => True)
    (pieces.map fun piece => Renderer.indentation depth ++ '/' :: '/' :: ' ' :: piece)
    (pieces.foldl (fun assembler piece => assembler.insertComment (String.ofList piece)))
  := by
  induction pieces with
  | nil => exact .nil
  | cons piece rest ih =>
    obtain ⟨hpiece, hrest⟩ := List.forall_mem_cons.mp hpieces
    have hfirst : Rereads scope context inOrder (fun _ => True)
        [Renderer.indentation depth ++ '/' :: '/' :: ' ' :: piece]
        (·.insertComment (String.ofList piece)) := by
      apply Rereads.line
      intro progress line hline _
      have htrimmed : Text.Trimmed ('/' :: '/' :: ' ' :: piece) := by
        obtain ⟨start, c, rfl, hc⟩ := hpiece.ends
        exact ⟨⟨'/', _, rfl, by decide⟩, ⟨'/' :: '/' :: ' ' :: start, c, rfl, hc⟩⟩
      have htrim : Text.trim line.text = '/' :: '/' :: ' ' :: piece :=
        hline ▸ trim_indentation htrimmed depth
      obtain ⟨hkind, hbody⟩ := classifyLine_comment hpiece
      refine ⟨[], fun _ => rfl, ?_⟩
      simp only [Progress.addLine, htrim, hkind, hbody, Progress.report, List.append_nil]
    exact hfirst.append (ih hrest) fun _ _ => trivial

/-- An action with a comment is inserted again with its comment, outside any block. -/
theorem rereads_commented {fields : Fragment.Fields} {text : List Char}
    (h : LastingAction scope context (.mapping fields) text) {pieces : List (List Char)}
    (hne : pieces ≠ []) (hpieces : ∀ piece ∈ pieces, Text.Trimmed piece) (depth : Nat) :
  Rereads scope context inOrder Outside
    ((pieces.map fun piece => Renderer.indentation depth ++ '/' :: '/' :: ' ' :: piece)
      ++ [Renderer.indentation depth ++ text])
    (·.insertAction ((Fragment.mapping fields).setField "comment"
      (.string (String.ofList (['\n'].intercalate pieces)))))
  := by
  apply ((rereads_comment hpieces depth).append (rereads_action h depth) fun _ _ => trivial).imp
  · exact fun _ _ => trivial
  · intro assembler hassembler
    have hwaits : String.ofList (['\n'].intercalate pieces) ≠ "" := by
      intro hempty
      apply Text.intercalate_ne_nil hne fun piece hpiece => (hpieces piece hpiece).ne_nil
      simpa using congrArg String.toList hempty
    rw [Function.comp_apply, Assembler.foldl_insertComment hne hpieces hassembler.pendingComment,
      hassembler.insertAction_eq]
    simp [Assembler.insertAction, Assembler.appendAction, hassembler.blocks,
      hassembler.pendingComment, Fragment.isMapping, hwaits]

end TriggerLang.Script
