import TriggerLang.Proofs.Document.Reserved
import TriggerLang.Proofs.Lexing.First
import TriggerLang.Proofs.Text.Line
import TriggerLang.Script.Classified
import TriggerLang.Script.Outcome

/-!
# What lines are classified as

The kind of a line is decided by its first characters, and so is what its text can be parsed
as: a line that starts with the sign of a trigger is parsed as a trigger or not at all.
-/

namespace TriggerLang

/-- Keywords are those of blocks. -/
theorem leadingKeyword?_kind {line : List Char} {kind : LineKind} {stop : Nat}
    (h : leadingKeyword? line = some (kind, stop)) :
  kind ∈ [.blockStart, .blockElse, .blockEnd]
  := by
  unfold leadingKeyword? at h
  split at h
  · cases h
  split at h
  · cases h
    decide
  split at h
  · cases h
    decide
  split at h
  · cases h
    decide
  · cases h

/-- What a line can be classified as, and what the line looks like then. -/
inductive Classifies (line : List Char) : ClassifiedLine → Prop
  | blank (hblank : line.all Text.isBlank = true) :
      Classifies line { kind := .blank, text := line }
  | comment :
      Classifies line
        { kind := .comment, text := line, bodyOffset := 2, body := Text.trim (line.drop 2) }
  | trigger {rest : List Char} (hline : line = '@' :: rest) :
      Classifies line { kind := .trigger, text := line, body := line }
  | blockStart (hcomment : ¬ "//".toList.isPrefixOf line = true) {stop : Nat}
      (hkeyword : leadingKeyword? line = some (.blockStart, stop)) :
      Classifies line
        { kind := .blockStart, text := line, bodyOffset := stop, body := line.drop stop }
  | blockElse (hcomment : ¬ "//".toList.isPrefixOf line = true) {stop : Nat}
      (hkeyword : leadingKeyword? line = some (.blockElse, stop)) :
      Classifies line { kind := .blockElse, text := line, bodyOffset := stop }
  | blockEnd (hcomment : ¬ "//".toList.isPrefixOf line = true) {stop : Nat}
      (hkeyword : leadingKeyword? line = some (.blockEnd, stop)) :
      Classifies line { kind := .blockEnd, text := line, bodyOffset := stop }
  | action (hcomment : ¬ "//".toList.isPrefixOf line = true)
      (hat : ¬ "@".toList.isPrefixOf line = true) :
      Classifies line { kind := .action, text := line, body := line }

theorem classifies_classifyLine (line : List Char) :
  Classifies line (classifyLine line)
  := by
  unfold classifyLine
  split
  · exact .blank ‹_›
  split
  · exact .comment
  split
  · rename_i hat
    obtain ⟨rest, hline⟩ := List.isPrefixOf_iff_prefix.mp hat
    exact .trigger hline.symm
  split
  · exact .blockStart ‹_› ‹_›
  · rename_i kind stop hother hkeyword
    have hkind := leadingKeyword?_kind hkeyword
    simp only [List.mem_cons, List.not_mem_nil, or_false] at hkind
    rcases hkind with rfl | rfl | rfl
    · exact absurd rfl hother
    · exact .blockElse ‹_› hkeyword
    · exact .blockEnd ‹_› hkeyword
  · exact .action ‹_› ‹_›

/-- The lines that are classified as triggers start with the sign of one, and are their own
bodies. -/
theorem of_classifyLine_kind_trigger {line : List Char}
    (h : (classifyLine line).kind = .trigger) :
  (∃ rest, line = '@' :: rest) ∧ (classifyLine line).body = line
  := by
  have hclassifies := classifies_classifyLine line
  generalize classifyLine line = classified at h hclassifies ⊢
  cases hclassifies with
  | trigger hline => exact ⟨⟨_, hline⟩, rfl⟩
  | _ => cases h

/-- The body of a comment is a trimmed part of its line. -/
theorem of_classifyLine_kind_comment {line : List Char}
    (h : (classifyLine line).kind = .comment) :
  (classifyLine line).body = Text.trim (line.drop 2)
  := by
  have hclassifies := classifies_classifyLine line
  generalize classifyLine line = classified at h hclassifies ⊢
  cases hclassifies with
  | comment => rfl
  | _ => cases h

/-- A text that starts with the sign of a trigger is parsed as a trigger. -/
theorem eq_of_parseLine_at {scope : Parse.Scope} {rest : List Char} {f : Fragment}
    (h : parseLine scope ('@' :: rest) = .ok f) :
  ∃ name, f = .mapping [("type", .string name)]
  := by
  have hat : (Lexeme.first '@' rest).terminal = .ofSymbol .at := by
    apply Lexeme.first_of_leading? rfl
    · simp
    · simp [Symbol.leading?, Symbol.all, Symbol.spelling, List.isPrefixOf]
  have hterminals : (significantTokens ('@' :: rest)).map Token.terminal
      = .ofSymbol .at :: (terminals rest).filter Terminal.isSignificant := by
    have hfirst : firstTerminal? ((Terminal.ofSymbol .at).text ++ rest) = some (.ofSymbol .at) :=
      congrArg some hat
    have hfirst : terminals ('@' :: rest) = .ofSymbol .at :: terminals rest :=
      terminals_append hfirst
    rw [map_terminal_significantTokens, hfirst]
    rfl
  obtain ⟨sign, others, htokens, hsign, -⟩ := List.map_eq_cons_iff.mp hterminals
  have hkind : sign.kind = .symbol .at := congrArg Terminal.kind hsign
  rw [parseLine, htokens, Parse.State.run, Parse.State.next,
    if_pos (by simp [Token.isSymbol, hkind])] at h
  change Parse.State.triggerSign.run scope others = _ at h
  cases others with
  | nil => cases h
  | cons name others =>
    rw [Parse.State.run, Parse.State.next] at h
    split at h
    · split at h
      · cases others with
        | nil =>
          cases h
          exact ⟨_, rfl⟩
        | cons more others => cases h
      · cases h
    · cases h

/-- A trigger has nothing that could be stripped or bound. -/
theorem postProcess_trigger (table : SideTable) (name : String) :
  (Fragment.mapping [("type", .string name)]).postProcess table
    = .mapping [("type", .string name)]
  := by
  have hwrites : FieldEffect.allWrites [.bind table] "" [("type", .string name)] = [] := by
    apply FieldEffect.allWrites_bind_eq_nil
    simp [Fragment.functionName?, Fragment.get?, List.lookup_cons]
  simp [Fragment.postProcess, Fragment.strip, hwrites, Fragment.stripFields, Fragment.addWrites,
    Fragment.isReserved]

/-- What a line that is classified as a trigger is accepted as is a trigger. -/
theorem eq_of_accepted_trigger {scope : Parse.Scope} {context : Context} {line : List Char}
    {f : Fragment} (hkind : (classifyLine line).kind = .trigger)
    (h : (evaluateSource (.ofScope scope) context (classifyLine line).body "").accepted? = some f) :
  ∃ name, f = .mapping [("type", .string name)]
  := by
  obtain ⟨⟨rest, rfl⟩, hbody⟩ := of_classifyLine_kind_trigger hkind
  rw [hbody] at h
  rw [Outcome.accepted?] at h
  split at h
  · simp only [evaluateSource, Toolkit.ofScope] at h
    cases hparse : parseLine scope ('@' :: rest) with
    | error failure => simp [hparse, Except.mapError] at h
    | ok g =>
      obtain ⟨name, rfl⟩ := eq_of_parseLine_at hparse
      simp only [hparse, Except.mapError, Fragment.isPrimitive, Bool.false_eq_true, if_false,
        postProcess_trigger] at h
      exact ⟨name, (Option.some_inj.mp h).symm⟩
  · cases h

end TriggerLang
