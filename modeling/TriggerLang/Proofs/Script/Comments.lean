import TriggerLang.Document.Assembler
import TriggerLang.Proofs.Text.Line

/-!
# Waiting comments

The comment that waits for an action is put together from the bodies of comment lines.  Each
of them is a line without white space around it, so the comment is split into the same lines
when it is rendered.
-/

namespace TriggerLang

/-- The comment consists of trimmed lines. -/
def IsComment (comment : String) : Prop :=
  ∃ pieces : List (List Char), pieces ≠ []
    ∧ (∀ piece ∈ pieces, Text.Trimmed piece ∧ Text.Unbroken piece)
    ∧ comment.toList = ['\n'].intercalate pieces

namespace IsComment

theorem line {line : List Char} (htrimmed : Text.Trimmed line) (hunbroken : Text.Unbroken line) :
  IsComment (String.ofList line)
  := by
  refine ⟨[line], by simp, by simp [htrimmed, hunbroken], ?_⟩
  rw [String.toList_ofList, List.intercalate_singleton]

theorem append {comment : String} (h : IsComment comment) {line : List Char}
    (htrimmed : Text.Trimmed line) (hunbroken : Text.Unbroken line) :
  IsComment (comment ++ "\n" ++ String.ofList line)
  := by
  obtain ⟨pieces, hne, hpieces, hcomment⟩ := h
  refine ⟨pieces ++ [line], by simp, ?_, ?_⟩
  · rw [List.forall_mem_append]
    exact ⟨hpieces, by simp [htrimmed, hunbroken]⟩
  · rw [Text.intercalate_append_singleton hne, ← hcomment]
    simp

theorem ne_empty {comment : String} (h : IsComment comment) :
  comment ≠ ""
  := by
  obtain ⟨pieces, hne, hpieces, hcomment⟩ := h
  rintro rfl
  exact Text.intercalate_ne_nil hne (fun piece hpiece => (hpieces piece hpiece).1.ne_nil)
    hcomment.symm

end IsComment

namespace Assembler

/-- No comment waits, or one that consists of trimmed lines. -/
def Waits (assembler : Assembler) : Prop :=
  assembler.pendingComment = "" ∨ IsComment assembler.pendingComment

/-- The body of a comment line is added to the waiting comment. -/
theorem Waits.insertComment {assembler : Assembler} (h : assembler.Waits) {line : List Char}
    (hunbroken : Text.Unbroken line) :
  (assembler.insertComment (String.ofList (Text.trim line))).Waits
  := by
  rw [Assembler.insertComment]
  split
  · exact h
  · rename_i hne
    have htrimmed : Text.Trimmed (Text.trim line) := by
      apply Text.trimmed_trim
      intro hnil
      rw [hnil] at hne
      exact hne rfl
    split
    · exact .inr (.line htrimmed hunbroken.trimmed)
    · rename_i hpending
      exact .inr ((h.resolve_left hpending).append htrimmed hunbroken.trimmed)

/-- Comment lines are gathered to the comment that consists of them. -/
theorem foldl_insertComment {pieces : List (List Char)} (hne : pieces ≠ [])
    (hpieces : ∀ piece ∈ pieces, Text.Trimmed piece) {assembler : Assembler}
    (hpending : assembler.pendingComment = "") :
  pieces.foldl (fun a piece => a.insertComment (String.ofList piece)) assembler
    = { assembler with pendingComment := String.ofList (['\n'].intercalate pieces) }
  := by
  induction pieces using List.reverseRecOn with
  | nil => exact absurd rfl hne
  | append_singleton rest last ih =>
    rw [List.forall_mem_append] at hpieces
    have hlast : String.ofList last ≠ "" := by
      intro hempty
      apply (hpieces.2 last (by simp)).ne_nil
      simpa using congrArg String.toList hempty
    rw [List.foldl_append, List.foldl_cons, List.foldl_nil]
    by_cases hrest : rest = []
    · subst hrest
      simp [insertComment, hlast, hpending]
    · have hbefore : String.ofList (['\n'].intercalate rest) ≠ "" := by
        intro hempty
        apply Text.intercalate_ne_nil hrest fun piece hpiece => (hpieces.1 piece hpiece).ne_nil
        simpa using congrArg String.toList hempty
      rw [ih hrest hpieces.1, insertComment, if_neg hlast, if_neg hbefore,
        Text.intercalate_append_singleton hrest]
      simp [String.append_assoc]

end Assembler

end TriggerLang
