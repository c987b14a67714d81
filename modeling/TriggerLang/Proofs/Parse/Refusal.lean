import TriggerLang.Proofs.Grammar.Expected
import TriggerLang.Proofs.Lexing.Lossless

/-!
# Where lines are refused

A text that is refused for a token, or for its end, is refused at the first place where it can
no longer be completed: what stands before the place can be completed to a text that is
accepted.  A text that is refused for its end lacks something.
-/

namespace TriggerLang

/-! ### Places of tokens -/

/-- A token stands behind the characters of the tokens before it. -/
theorem start_of_place_eq_append {start : Nat} {afterLineBreak : Bool} {text : List Char}
    {before after : List Token} {t : Token}
    (h : Token.place start afterLineBreak (lexemes text) = before ++ t :: after) :
  t.start = start + (before.flatMap Token.text).length
  := by
  induction text using lexemes_induction generalizing start afterLineBreak before with
  | nil =>
    rw [lexemes, Token.place] at h
    simp at h
  | cons c others rest htext ih =>
    rw [place_of_first_append htext] at h
    cases before with
    | nil =>
      obtain ⟨rfl, -⟩ := List.cons.inj h
      rfl
    | cons first before =>
      obtain ⟨rfl, hrest⟩ := List.cons.inj h
      rw [ih hrest, List.flatMap_cons, List.length_append, Nat.add_assoc]
      rfl

/-- What stands before a token of a text consists of the tokens before it. -/
theorem take_start_of_properTokens {source : List Char} {before after : List Token} {t : Token}
    (h : properTokens source = before ++ t :: after) :
  source.take t.start = before.flatMap Token.text
  := by
  have hstart : t.start = (before.flatMap Token.text).length :=
    (start_of_place_eq_append h).trans (Nat.zero_add _)
  have hsource : before.flatMap Token.text ++ (t :: after).flatMap Token.text = source := by
    rw [← List.flatMap_append, ← h, properTokens, Token.flatMap_text_place, flatMap_text_lexemes]
  rw [hstart, ← hsource, List.take_left]

/-- The significant tokens before one of them are those of all the tokens before it. -/
theorem exists_properTokens_of_significantTokens {source : List Char} {before after : List Token}
    {t : Token} (h : significantTokens source = before ++ t :: after) :
  ∃ others rest, properTokens source = others ++ t :: rest
    ∧ others.filter (·.kind.isSignificant) = before
  := by
  obtain ⟨first, second, hproper, hfirst, hsecond⟩ := List.filter_eq_append_iff.mp h
  obtain ⟨others, rest, rfl, hothers, -, -⟩ := List.filter_eq_cons_iff.mp hsecond
  refine ⟨first ++ others, rest, ?_, ?_⟩
  · rw [hproper, List.append_assoc]
  · rw [List.filter_append, hfirst, List.filter_eq_nil_iff.mpr hothers, List.append_nil]

variable {scope : Parse.Scope} {source : List Char}

/-! ### Texts that are completed -/

/-- Strings are closed where what means something can be completed. -/
theorem isClosed_of_completable {ts : List Terminal}
    (h : Grammar.Completable scope (ts.filter Terminal.isSignificant)) :
  ∀ t ∈ ts, t.IsClosed
  := by
  intro t ht hkind
  have hsignificant : t.isSignificant = true := by
    rw [Terminal.isSignificant, hkind]
    rfl
  exact (h.isWhole t (List.mem_filter.mpr ⟨ht, hsignificant⟩)).2 hkind

/-- A text that keeps its terminals before a line break is completed if they can be. -/
theorem exists_parseLine_append {text : List Char} {ts : List Terminal}
    (hterminals : ∀ out, terminals (text ++ '\n' :: out) = ts ++ .newline :: terminals out)
    (hcompletable : Grammar.Completable scope (ts.filter Terminal.isSignificant)) :
  ∃ rest f, parseLine scope (text ++ rest) = .ok f
  := by
  obtain ⟨out, f, hline⟩ := hcompletable
  refine ⟨'\n' :: out, f, Grammar.parseLine_of_derivesLine ?_⟩
  rw [map_terminal_significantTokens, hterminals, List.filter_append,
    List.filter_cons_of_neg (by decide), ← map_terminal_significantTokens, ← meaning_nil]
  exact hline

/-- The terminals of some tokens, without those that mean nothing to the grammar. -/
theorem filter_map_terminal (ts : List Token) :
  (ts.map Token.terminal).filter Terminal.isSignificant
    = (ts.filter (·.kind.isSignificant)).map Token.terminal
  := by
  rw [List.filter_map]
  rfl

/-- What stands before a token can be completed if the significant tokens there can be. -/
theorem exists_parseLine_take (hunbroken : Text.Unbroken source) {before after : List Token}
    {t : Token} (h : properTokens source = before ++ t :: after)
    (hcompletable : Grammar.Completable scope
      ((before.filter (·.kind.isSignificant)).map Token.terminal)) :
  ∃ rest f, parseLine scope (source.take t.start ++ rest) = .ok f
  := by
  have hterminals : terminals source
      = before.map Token.terminal ++ (t :: after).map Token.terminal := by
    rw [← map_terminal_properTokens, h, List.map_append]
  have htext : (before.map Token.terminal).flatMap Terminal.text = before.flatMap Token.text := by
    rw [List.flatMap_map]
    rfl
  rw [← filter_map_terminal] at hcompletable
  rw [take_start_of_properTokens h, ← htext]
  exact exists_parseLine_append
    (terminals_append_newline hunbroken hterminals (isClosed_of_completable hcompletable))
    hcompletable

/-- A whole text can be completed if its significant tokens can be. -/
theorem exists_parseLine_of_completable (hunbroken : Text.Unbroken source)
    (hcompletable : Grammar.Completable scope ((significantTokens source).map Token.terminal)) :
  ∃ rest f, parseLine scope (source ++ rest) = .ok f
  := by
  rw [map_terminal_significantTokens] at hcompletable
  have hterminals := terminals_append_newline hunbroken (List.append_nil (terminals source)).symm
    (isClosed_of_completable hcompletable)
  rw [flatMap_text_terminals] at hterminals
  exact exists_parseLine_append hterminals hcompletable

/-- A text that ends in a string that is not closed is completed behind a quote if what comes
before the string can be completed behind a string. -/
theorem exists_parseLine_append_quote (hunbroken : Text.Unbroken source)
    {before after : List Token} {t : Token} (h : properTokens source = before ++ t :: after)
    (hkind : t.kind = .string) (hunterminated : t.flags.unterminated = true)
    (hcompletable : ∀ closed : Terminal, closed.kind = .string → closed.unterminated = false →
      Grammar.Completable scope
        ((before.filter (·.kind.isSignificant)).map Token.terminal ++ [closed])) :
  ∃ rest f, parseLine scope (source ++ ' ' :: '"' :: rest) = .ok f
  := by
  have hterminals : terminals source
      = before.map Token.terminal ++ t.terminal :: after.map Token.terminal := by
    rw [← map_terminal_properTokens, h, List.map_append, List.map_cons]
  have hclosed : ∀ out, terminals (source ++ [' ', '"'] ++ '\n' :: out)
      = before.map Token.terminal ++ [⟨.string, t.terminal.text ++ [' ', '"'], false⟩]
        ++ .newline :: terminals out := by
    intro out
    have hquote := terminals_append_quote hunbroken hterminals hkind hunterminated ('\n' :: out)
    rw [terminals_newline] at hquote
    simpa using hquote
  obtain ⟨rest, f, hparsed⟩ := exists_parseLine_append hclosed (by
    rw [List.filter_append, filter_map_terminal, List.filter_cons_of_pos rfl]
    exact hcompletable ⟨.string, t.terminal.text ++ [' ', '"'], false⟩ rfl rfl)
  exact ⟨rest, f, by simpa using hparsed⟩

/-- A text that ends in a string that is not closed can be completed if what comes before the
string can be completed behind a string. -/
theorem exists_parseLine_of_string (hunbroken : Text.Unbroken source)
    {before after : List Token} {t : Token} (h : properTokens source = before ++ t :: after)
    (hkind : t.kind = .string) (hunterminated : t.flags.unterminated = true)
    (hcompletable : ∀ closed : Terminal, closed.kind = .string → closed.unterminated = false →
      Grammar.Completable scope
        ((before.filter (·.kind.isSignificant)).map Token.terminal ++ [closed])) :
  ∃ rest f, parseLine scope (source ++ rest) = .ok f
  := by
  obtain ⟨rest, f, hparsed⟩ :=
    exists_parseLine_append_quote hunbroken h hkind hunterminated hcompletable
  exact ⟨' ' :: '"' :: rest, f, hparsed⟩

/-! ### Where a text is refused -/

/-- The refusal is that of a token of the text, or that of its end if the text is not complete;
and what stands before its region can be completed to a text that is accepted. -/
structure Parse.Unexpected.Interrupts (scope : Parse.Scope) (source : List Char)
    (e : Parse.Unexpected) : Prop where
  place : (∃ t ∈ properTokens source,
      e.region = t.region source ∧ e.got = t.word ∧ e.recoverable = false)
    ∨ e.region = .onLine 1 Nat.one_pos source.length 0 ∧ e.got = "end of line"
      ∧ e.recoverable = true
  line : e.region.start.line = 1
  completable : ∃ rest f,
    parseLine scope (source.take (e.region.start.column - 1) ++ rest) = .ok f

/-- A text that is no trigger is refused at the first place where it can no longer be
completed. -/
theorem interrupts_of_parseLine (hunbroken : Text.Unbroken source)
    (hsign : ∀ t ∈ (significantTokens source).head?, t.kind ≠ .symbol .at)
    {token : Option Token} {expected : List Parse.Expectation}
    (h : parseLine scope source = .error (.unexpected token expected)) :
  (Parse.Unexpected.of source token expected).Interrupts scope source
  := by
  have hend : (Parse.Unexpected.of source none expected).region
      = .onLine 1 Nat.one_pos source.length 0 := endToken_region hunbroken
  have htake : source.take ((Parse.Unexpected.of source none expected).region.start.column - 1)
      = source := by
    rw [hend]
    exact List.take_length
  cases Grammar.stuck_of_parseLine hsign h with
  | @token before after t htokens hcompletable =>
    obtain ⟨others, rest, hproper, rfl⟩ := exists_properTokens_of_significantTokens htokens
    have hmem : t ∈ properTokens source := by simp [hproper]
    obtain ⟨prior, -, -, hstart, hregion⟩ := exists_region_eq_onLine hunbroken hmem
    have hcolumn : (Parse.Unexpected.of source (some t) expected).region.start.column - 1
        = t.start := by
      change (t.region source).start.column - 1 = t.start
      rw [hregion, hstart]
      rfl
    refine ⟨.inl ⟨t, hmem, rfl, rfl, rfl⟩, congrArg (·.start.line) hregion, ?_⟩
    rw [hcolumn]
    exact exists_parseLine_take hunbroken hproper hcompletable
  | atEnd hcompletable =>
    refine ⟨.inr ⟨hend, rfl, rfl⟩, congrArg (·.start.line) hend, ?_⟩
    rw [htake]
    exact exists_parseLine_of_completable hunbroken hcompletable
  | string htokens hkind hunterminated hcompletable =>
    obtain ⟨others, rest, hproper, rfl⟩ := exists_properTokens_of_significantTokens htokens
    refine ⟨.inr ⟨hend, rfl, rfl⟩, congrArg (·.start.line) hend, ?_⟩
    rw [htake]
    exact exists_parseLine_of_string hunbroken hproper hkind hunterminated hcompletable

/-- A call whose argument is a string that ends in a lone backslash. -/
def openString : List Char :=
  "runScript(\"knight\\".toList

/-- A string that is not closed is refused at the end of the text, and the call around it can be
completed. -/
theorem interrupts_of_parseLine_openString :
  Text.Unbroken openString
    ∧ (∀ t ∈ (significantTokens openString).head?, t.kind ≠ .symbol .at)
    ∧ parseLine {} openString = .error (.unexpected none [.literal "\""])
    ∧ (Parse.Unexpected.of openString none [.literal "\""]).Interrupts {} openString
  := by
  have hunbroken : Text.Unbroken openString := by
    have hall : (openString.all fun c => !Text.isLineBreak c) = true := by decide
    intro c hc
    simpa using List.all_eq_true.mp hall c hc
  have htokens : significantTokens openString
      = [⟨.identifier, 0, "runScript".toList, {}, 0⟩, ⟨.symbol .openParen, 9, ['('], {}, 0⟩,
        ⟨.string, 10, "\"knight\\".toList, ⟨false, true, true, true⟩, 0⟩] := by
    decide +kernel
  have hsign : ∀ t ∈ (significantTokens openString).head?, t.kind ≠ .symbol .at := by
    rw [htokens]
    decide
  have hrefused : parseLine {} openString = .error (.unexpected none [.literal "\""]) := by
    rw [parseLine, htokens]
    rfl
  exact ⟨hunbroken, hsign, hrefused, interrupts_of_parseLine hunbroken hsign hrefused⟩

end TriggerLang
