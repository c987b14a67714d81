import TriggerLang.Proofs.Grammar.Completeness
import TriggerLang.Proofs.Grammar.Completion
import TriggerLang.Proofs.Grammar.Shape
import TriggerLang.Proofs.Lexing.Margin
import TriggerLang.Proofs.Script.Keyword

/-!
# Lines that the grammar accepts

The lines of a script are trimmed and classified before the grammar sees them.  No line is lost
on the way: what the grammar accepts of a line it accepts of the trimmed line, and that line is
classified as a trigger or as an action with all of its text.  So a comment or a line of a block
is never one that the grammar accepts.
-/

namespace TriggerLang

namespace Grammar

variable {scope : Parse.Scope}

theorem Derives.ne_nil {phrase : Phrase} {ts : List Terminal} (h : Derives scope phrase ts) :
  ts ≠ []
  := by
  induction h with
  | loosen _ _ ih => exact ih
  | first _ ih => exact ih
  | _ => simp

theorem DerivesLine.ne_nil {f : Fragment} {ts : List Terminal} (h : DerivesLine scope f ts) :
  ts ≠ []
  := by
  cases h with
  | trigger => exact List.cons_ne_nil _ _
  | expression h => exact h.ne_nil

/-- No line that is derived starts with a keyword of blocks. -/
theorem DerivesLine.head_notMem {f : Fragment} {ts : List Terminal} (h : DerivesLine scope f ts) :
  ∀ t ∈ ts.head?, t.kind = .identifier → t.word ∉ ["if", "else", "end"]
  := by
  cases h with
  | trigger hsign =>
    rintro t ⟨⟩ hkind
    rw [hsign] at hkind
    cases hkind
  | expression h => exact h.head_notMem

/-- A fragment with a function is no trigger. -/
theorem ne_triggerOf_of_function {f : Fragment} (h : (f.get? "function").isSome = true)
    (name : String) :
  f ≠ triggerOf name
  := by
  rintro rfl
  cases h

theorem ne_triggerOf_callOf (signature : Signature) (fs : List Fragment) (name : String) :
  callOf signature fs ≠ triggerOf name
  := by
  apply ne_triggerOf_of_function
  rw [callOf, fieldsOf_eq, Fragment.get?, lookup_callFields]
  cases (argumentEntries signature.parameters fs).reverse.lookup "function" <;> simp

/-- No expression stands for a trigger, whatever the catalog. -/
theorem Derives.ne_triggerOf {phrase : Phrase} {ts : List Terminal}
    (h : Derives scope phrase ts) :
  phrase.All fun f => ∀ name, f ≠ triggerOf name
  := by
  induction h with
  | loosen _ _ ih => exact ih
  | @binary op left right =>
    intro name
    rcases op.apply_eq_or scope.catalog left right with ⟨operandType, heq⟩ | heq
    · rw [heq]
      rintro ⟨⟩
    · rw [heq]
      exact ne_triggerOf_of_function rfl name
  | @negative f =>
    intro name
    cases f with
    | integer | float => rintro ⟨⟩
    | _ => exact ne_triggerOf_of_function rfl name
  | group _ _ _ ih => exact ih
  | call | emptyCall | constant => exact ne_triggerOf_callOf _ _
  | declared => exact ne_triggerOf_of_function rfl
  | first _ ih => exact List.forall_mem_singleton.mpr ih
  | further _ _ _ ihs ih =>
    exact List.forall_mem_append.mpr ⟨ihs, List.forall_mem_singleton.mpr ih⟩
  | integer | float | string | trueWord | falseWord =>
    rintro name ⟨⟩

end Grammar

open Grammar

section

variable {scope : Parse.Scope} {line : List Char} {f : Fragment}

/-- A line that is accepted does not start with a keyword of blocks. -/
theorem leadingKeyword?_eq_none (h : parseLine scope line = .ok f) :
  leadingKeyword? line = none
  := by
  have hhead := (derivesLine_of_parseLine h).head_notMem
  rw [leadingKeyword?]
  cases htokens : significantTokens line with
  | nil => rfl
  | cons first others =>
    rw [htokens] at hhead
    have hword : ∀ w ∈ ["if", "else", "end"], first.isWord w = false := by
      intro w hw
      rw [Bool.eq_false_iff]
      intro hword
      rw [Token.isWord, Bool.and_eq_true, beq_iff_eq, beq_iff_eq] at hword
      apply hhead first.terminal rfl hword.1
      rwa [Token.terminal_word, hword.2]
    simp [hword]

section

variable (hunbroken : Text.Unbroken line) (h : parseLine scope line = .ok f)

include hunbroken h

/-- Trimming a line does not change what it is accepted as. -/
theorem parseLine_trim_of_ok :
  parseLine scope (Text.trim line) = .ok f
  := by
  have hderives := derivesLine_of_parseLine h
  rw [← meaning_nil] at hderives
  apply parseLine_of_derivesLine
  rw [← meaning_nil, meaning_trim hunbroken hderives.isWhole]
  exact hderives

/-- A comment is not accepted. -/
theorem not_isPrefixOf_slashes_of_ok :
  ¬ "//".toList.isPrefixOf line = true
  := by
  intro hslashes
  obtain ⟨rest, rfl⟩ := List.isPrefixOf_iff_prefix.mp hslashes
  have hderives := derivesLine_of_parseLine h
  have hcomment := @Terminal.terminals_comment rest [] hunbroken.of_cons.2.of_cons.2 nofun
  rw [List.append_nil, terminals_nil] at hcomment
  apply hderives.ne_nil
  rw [← meaning_nil, meaning_nil_eq_filter]
  exact congrArg (List.filter Terminal.isSignificant) hcomment

/-- Something is left of a line that is accepted when it is trimmed. -/
theorem trimmed_of_ok :
  Text.Trimmed (Text.trim line)
  := by
  apply Text.trimmed_trim
  intro hnil
  have hderives := derivesLine_of_parseLine (parseLine_trim_of_ok hunbroken h)
  apply hderives.ne_nil
  rw [hnil, ← meaning_nil, meaning_nil_eq_filter, terminals_nil]
  rfl

/-- A line that is accepted is classified as a trigger or as an action. -/
theorem kind_classifyLine_of_ok :
  (classifyLine line).kind ∈ [.trigger, .action]
  := by
  unfold classifyLine
  split
  · rename_i hblank
    have hnil : Text.trim line = [] := by
      rw [Text.trim, Text.trimStart, List.dropWhile_eq_nil_iff.mpr (List.all_eq_true.mp hblank)]
      rfl
    exact absurd hnil (trimmed_of_ok hunbroken h).ne_nil
  split
  · exact absurd ‹_› (not_isPrefixOf_slashes_of_ok hunbroken h)
  split
  · exact List.mem_cons_self
  rw [leadingKeyword?_eq_none h]
  exact List.mem_cons_of_mem _ List.mem_cons_self

/-- A trimmed line that is accepted is a trigger or an action by what it is accepted as. -/
theorem classifyLine_of_ok (htrimmed : Text.Trimmed line) :
  classifyLine line = { kind := .trigger, text := line, body := line }
      ∧ (∃ name, f = triggerOf name)
    ∨ classifyLine line = { kind := .action, text := line, body := line }
      ∧ ∀ name, f ≠ triggerOf name
  := by
  have hcomment := not_isPrefixOf_slashes_of_ok hunbroken h
  have hkeyword := leadingKeyword?_eq_none h
  obtain ⟨c, others, rfl, hblank⟩ := htrimmed.starts
  by_cases hc : c = '@'
  · subst hc
    exact .inl ⟨classifyLine_trigger others, eq_of_parseLine_at h⟩
  · right
    constructor
    · rw [classifyLine, if_neg (all_isBlank_cons hblank others), if_neg hcomment,
        if_neg (not_isPrefixOf_sign hc others), hkeyword]
    · have hsignificant := Lexeme.isSignificant_first hblank
        fun hslashes => hcomment (isPrefixOf_slashes hslashes)
      obtain ⟨ts, hmeaning⟩ := exists_meaning_eq_cons rfl hsignificant
      have hderives := derivesLine_of_parseLine h
      rw [← meaning_nil, hmeaning] at hderives
      cases hderives with
      | trigger hsign => exact absurd (Lexeme.eq_of_first_kind_at hsign) hc
      | expression hderives => exact hderives.ne_triggerOf

end

/-- What the grammar accepts of a line without line breaks it accepts of the trimmed line, which
is classified as a trigger if it is accepted as one, and else as an action, with the whole of it
as its body; a line that is classified as anything else is refused. -/
theorem accepted_of_trim (hunbroken : Text.Unbroken line) :
  (∀ f, parseLine scope line = .ok f →
      parseLine scope (Text.trim line) = .ok f
        ∧ ((∃ name, f = triggerOf name) → classifyLine (Text.trim line)
          = { kind := .trigger, text := Text.trim line, bodyOffset := 0, body := Text.trim line })
        ∧ ((¬ ∃ name, f = triggerOf name) → classifyLine (Text.trim line)
          = { kind := .action, text := Text.trim line, bodyOffset := 0, body := Text.trim line }))
    ∧ ((classifyLine line).kind ∉ [.trigger, .action] →
      ∃ failure, parseLine scope line = .error failure)
  := by
  constructor
  · intro f h
    have htrim := parseLine_trim_of_ok hunbroken h
    refine ⟨htrim, ?_⟩
    rcases classifyLine_of_ok hunbroken.trimmed htrim (trimmed_of_ok hunbroken h) with
      ⟨hclassified, htrigger⟩ | ⟨hclassified, htrigger⟩
    · exact ⟨fun _ => hclassified, fun hnot => absurd htrigger hnot⟩
    · exact ⟨fun ⟨name, hname⟩ => absurd hname (htrigger name), fun _ => hclassified⟩
  · intro hkind
    cases h : parseLine scope line with
    | error failure => exact ⟨failure, rfl⟩
    | ok f => exact absurd (kind_classifyLine_of_ok hunbroken h) hkind

end

/-- A trigger behind a tab, with a comment of white space that the lexer does not know. -/
def spacedTrigger : List Char :=
  "\t@gameStart // \u00a0".toList

/-- The white space of a comment is trimmed off, the trigger before it stays one. -/
theorem accepted_of_trim_spacedTrigger :
  Text.Unbroken spacedTrigger
    ∧ parseLine {} spacedTrigger = .ok (triggerOf "gameStart")
    ∧ parseLine {} (Text.trim spacedTrigger) = .ok (triggerOf "gameStart")
    ∧ classifyLine (Text.trim spacedTrigger)
      = { kind := .trigger, text := "@gameStart //".toList, body := "@gameStart //".toList }
  := by
  have hunbroken : Text.Unbroken spacedTrigger := Text.unbroken_of_all rfl
  have hparse : parseLine {} spacedTrigger = .ok (triggerOf "gameStart") := by decide +kernel
  have htrim : Text.trim spacedTrigger = "@gameStart //".toList := by decide
  obtain ⟨hsame, htrigger, -⟩ := (accepted_of_trim hunbroken).1 _ hparse
  have hclassified := htrigger ⟨"gameStart", rfl⟩
  rw [htrim] at hclassified
  exact ⟨hunbroken, hparse, hsame, hclassified⟩

end TriggerLang
