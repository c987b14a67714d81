import TriggerLang.Proofs.Lexing.Break

/-!
# Cutting a text at a token

A text can be cut wherever one of its tokens starts: the tokens before the cut are those of
the first part by itself, and the tokens behind it are those of the second part.  Going on to
the right this is plain, since a token does not know what comes before it.  What comes before
the cut has to end in the same token although its lookahead is gone, whatever kind of token that
is.

Two things are known of a token that its part does not tell.  One is whether a line break comes
before it.  The other is how far it is counted to reach beyond its characters: a symbol of one
character at the end of the first part is counted wider there than before the second part.
-/

namespace TriggerLang

/-! ### Flags -/

namespace Lexeme

theorem number_flags (text : List Char) :
  (number text).unterminated = false ∧ (number text).escaped = false
  := by
  simp only [number]
  split
  · split <;> exact ⟨rfl, rfl⟩
  · exact ⟨rfl, rfl⟩

/-- A string has been read over an escape if there is a backslash in it. -/
theorem stringBody_escaped (text : List Char) :
  (stringBody text).escaped = decide ('\\' ∈ (stringBody text).text)
  := by
  fun_induction stringBody text with
  | case1 => rfl
  | case2 => rfl
  | case3 c rest body ih => simp
  | case4 => rfl
  | case5 => rfl
  | case6 c rest hend hescape hquote hbreak body ih =>
    have hne := ne_backslash_of_cases hend hescape
    simpa [hne.symm] using ih

/-- Only strings are left without an end. -/
theorem kind_of_unterminated {c : Char} {others : List Char}
    (h : (first c others).unterminated = true) :
  (first c others).kind = .string
  := by
  have hfirst := isFirst_first c others
  generalize first c others = lexeme at h hfirst
  cases hfirst with
  | string => exact stringBody_kind others
  | number => simp [(number_flags _).1] at h
  | _ => cases h

/-- Only strings are read over escapes, and these are seen from their characters. -/
theorem first_escaped (c : Char) (others : List Char) :
  (first c others).escaped
    = ((first c others).kind == .string && decide ('\\' ∈ (first c others).text))
  := by
  have hfirst := isFirst_first c others
  generalize first c others = lexeme at hfirst
  cases hfirst with
  | string => simp [stringBody_escaped, stringBody_kind]
  | number =>
    rcases number_kind (c :: others) with hkind | hkind <;> rw [(number_flags _).2, hkind] <;> rfl
  | _ => rfl

end Lexeme

/-! ### Shorter lookahead -/

/-- A string by itself is read as far as in a longer text. -/
theorem Lexeme.stringBody_text (text : List Char) :
  stringBody (stringBody text).text = stringBody text
  := by
  fun_induction stringBody text with
  | case1 => rfl
  | case2 => rfl
  | case3 c rest body ih =>
    change stringBody ('\\' :: c :: body.text) = _
    rw [stringBody, ih]
  | case4 => rfl
  | case5 => rfl
  | case6 c rest hend hescape hquote hbreak body ih =>
    change stringBody (c :: body.text) = _
    rw [stringBody_cons, if_neg hquote, if_neg hbreak, ih]
    exact ne_backslash_of_cases hend hescape

/-- The first terminal of a text is the only one of its own characters. -/
theorem firstTerminal?_text (c : Char) (others : List Char) :
  firstTerminal? (Lexeme.first c others).terminal.text = some (Lexeme.first c others).terminal
  := by
  by_cases hnewline : (Lexeme.first c others).kind = .newline
  · have hfirst := Lexeme.isFirst_first c others
    generalize Lexeme.first c others = lexeme at hnewline hfirst
    cases hfirst with
    | newline hbreak =>
      rw [Lexeme.terminal]
      split
      · rfl
      · simp [firstTerminal?, Lexeme.first, hbreak, Lexeme.terminal]
    | string => simp [Lexeme.stringBody_kind] at hnewline
    | number => rcases Lexeme.number_kind (c :: others) with h | h <;> simp [h] at hnewline
    | _ => cases hnewline
  by_cases hclosed : (Lexeme.first c others).terminal.IsClosed
  · have hself := firstTerminal?_append_of_endsBefore hclosed hnewline
      (Lexeme.first c others).terminal.endsBefore_nil
    rwa [List.append_nil] at hself
  · rw [Terminal.IsClosed, not_forall] at hclosed
    obtain ⟨hkind, -⟩ := hclosed
    obtain rfl := Lexeme.eq_of_first_kind_string hkind
    rw [Lexeme.first_quote, Lexeme.terminal, firstTerminal?, Lexeme.first_quote,
      Lexeme.stringBody_text]
    rfl

/-- The first terminal of a text stays the same where what follows it is cut off. -/
theorem firstTerminal?_of_isPrefix {t : Terminal} {rest out : List Char}
    (h : firstTerminal? (t.text ++ rest) = some t) (hout : out <+: rest) :
  firstTerminal? (t.text ++ out) = some t
  := by
  cases htext : t.text ++ rest with
  | nil =>
    rw [htext] at h
    cases h
  | cons c others =>
    rw [htext, firstTerminal?, Option.some_inj] at h
    subst h
    obtain ⟨after, rfl⟩ := hout
    cases out with
    | nil =>
      rw [List.append_nil]
      exact firstTerminal?_text c others
    | cons d out =>
      by_cases hcomment : (Lexeme.first c others).kind = .comment
      · obtain ⟨line, hline, hunbroken, hbreak⟩ :=
          Lexeme.exists_first_comment hcomment htext.symm
        have hunterminated : (Lexeme.first c others).unterminated = false := by
          rw [Bool.eq_false_iff]
          intro hunterminated
          rw [Lexeme.kind_of_unterminated hunterminated] at hcomment
          cases hcomment
        have hterminal : (Lexeme.first c others).terminal
            = ⟨.comment, '/' :: '/' :: line, false⟩ := by
          rw [Lexeme.terminal, hcomment, hline, hunterminated]
        rw [hterminal]
        exact Terminal.firstTerminal?_comment hunbroken hbreak
      · apply firstTerminal?_of_alike (firstTerminal?_of_first_append htext.symm) hcomment
        constructor
        · exact .inl rfl
        · intro e behind heq _
          exact ⟨behind ++ after, congrArg (· ++ after) heq⟩

/-- The terminals that a text starts with are those of their own characters. -/
theorem terminals_flatMap_text_of_append {source : List Char} {ts us : List Terminal}
    (h : terminals source = ts ++ us) :
  terminals (ts.flatMap Terminal.text) = ts
  := by
  induction source using lexemes_induction generalizing ts with
  | nil =>
    rw [terminals_nil] at h
    obtain ⟨rfl, -⟩ := List.append_eq_nil_iff.mp h.symm
    exact terminals_nil
  | cons c others rest htext ih =>
    cases ts with
    | nil => exact terminals_nil
    | cons t ts =>
      rw [terminals_of_first_append htext] at h
      obtain ⟨rfl, hrest⟩ := List.cons.inj h
      have hleft : ts.flatMap Terminal.text <+: rest :=
        ⟨us.flatMap Terminal.text, (eq_append_of_terminals hrest).symm⟩
      have hfirst := firstTerminal?_of_isPrefix (firstTerminal?_of_first_append htext) hleft
      rw [List.flatMap_cons, terminals_append hfirst, ih hrest]

/-! ### Tokens of terminals -/

namespace Token

/-- The token, whether or not a line break comes before it. -/
def unmarked (t : Token) : Token :=
  { t with flags := { t.flags with afterLineBreak := false } }

/-- The token `k` characters further. -/
def shift (k : Nat) (t : Token) : Token :=
  { t with start := t.start + k }

/-- The token as it is counted in a text that ends at an offset. -/
def endingAt (stop : Nat) (t : Token) : Token :=
  { t with overhang := if t.start + t.text.length < stop then 0 else t.kind.overhang }

end Token

namespace Terminal

/-- The token of a terminal at an offset of a text that ends at `stop`, whether or not a line
break comes before it. -/
def token (stop start : Nat) (t : Terminal) : Token where
  kind := t.kind
  start := start
  text := t.text
  flags :=
    { quoted := t.kind == .string
      escaped := t.kind == .string && decide ('\\' ∈ t.text)
      unterminated := t.unterminated }
  overhang := if start + t.text.length < stop then 0 else t.kind.overhang

/-- The tokens of terminals that follow one another from an offset. -/
def tokensFrom (stop start : Nat) : List Terminal → List Token
  | [] => []
  | t :: rest => t.token stop start :: tokensFrom stop (start + t.text.length) rest

variable (stop start : Nat) (ts us : List Terminal)

theorem tokensFrom_append :
  tokensFrom stop start (ts ++ us)
    = tokensFrom stop start ts
      ++ tokensFrom stop (start + (ts.flatMap Terminal.text).length) us
  := by
  induction ts generalizing start with
  | nil => rfl
  | cons t rest ih =>
    rw [List.cons_append, tokensFrom, ih, tokensFrom, List.flatMap_cons, List.length_append,
      Nat.add_assoc]
    rfl

theorem map_shift_tokensFrom (k : Nat) :
  (tokensFrom stop start ts).map (Token.shift k) = tokensFrom (stop + k) (start + k) ts
  := by
  induction ts generalizing start with
  | nil => rfl
  | cons t rest ih =>
    have hends : start + k + t.text.length < stop + k ↔ start + t.text.length < stop := by omega
    rw [tokensFrom, List.map_cons, ih, tokensFrom, Nat.add_right_comm start k]
    simp only [Token.shift, token, hends]

theorem map_endingAt_tokensFrom (stop' : Nat) :
  (tokensFrom stop start ts).map (Token.endingAt stop') = tokensFrom stop' start ts
  := by
  induction ts generalizing start with
  | nil => rfl
  | cons t rest ih =>
    rw [tokensFrom, List.map_cons, ih]
    rfl

end Terminal

/-- The token of a first lexeme is known from its terminal, but for a line break before it. -/
theorem Lexeme.unmarked_ofLexeme_first {c : Char} {others rest : List Char}
    (htext : c :: others = (first c others).text ++ rest) (start : Nat) (afterLineBreak : Bool) :
  (Token.ofLexeme start afterLineBreak (first c others)).unmarked
    = (first c others).terminal.token (start + (c :: others).length) start
  := by
  have hoverhang : (first c others).overhang
      = if start + (first c others).text.length < start + (c :: others).length then 0
        else (first c others).kind.overhang := by
    have hlength := congrArg List.length htext
    rw [List.length_append] at hlength
    cases rest with
    | nil =>
      rw [List.append_nil] at htext
      rw [if_neg (by simp [← htext]), overhang_of_text_eq htext.symm]
    | cons d rest =>
      rw [if_pos (by simp only [hlength, List.length_cons]; omega)]
      by_contra hne
      cases eq_nil_of_first_overhang htext hne
  rw [Token.unmarked, Token.ofLexeme, first_escaped, hoverhang]
  rfl

/-- The tokens of a text are known from its terminals, but for line breaks before them. -/
theorem map_unmarked_place (text : List Char) (start : Nat) (afterLineBreak : Bool) :
  (Token.place start afterLineBreak (lexemes text)).map Token.unmarked
    = Terminal.tokensFrom (start + text.length) start (terminals text)
  := by
  induction text using lexemes_induction generalizing start afterLineBreak with
  | nil => rw [lexemes, terminals_nil]; rfl
  | cons c others rest htext ih =>
    have hlength := congrArg List.length htext
    rw [List.length_append] at hlength
    rw [place_of_first_append htext, terminals_of_first_append htext, List.map_cons, ih,
      Terminal.tokensFrom, Lexeme.unmarked_ofLexeme_first htext, Nat.add_assoc, ← hlength]
    rfl

/-- What is counted to reach beyond a text depends on its last terminal. -/
theorem overhang_eq_getLast?_terminals (source : List Char) :
  overhang source = ((terminals source).getLast?.map (·.kind.overhang)).getD 0
  := by
  rw [← map_terminal_properTokens, List.getLast?_map, Option.map_map]
  rfl

namespace Terminal

/-- Away from the end of a text it does not matter where the text ends. -/
theorem tokensFrom_congr {stop stop' start : Nat} {ts : List Terminal}
    (h : start + (ts.flatMap Terminal.text).length < stop)
    (h' : start + (ts.flatMap Terminal.text).length < stop') :
  tokensFrom stop start ts = tokensFrom stop' start ts
  := by
  induction ts generalizing start with
  | nil => rfl
  | cons t rest ih =>
    rw [List.flatMap_cons, List.length_append, ← Nat.add_assoc] at h h'
    have hhere : start + t.text.length < stop := by omega
    have hhere' : start + t.text.length < stop' := by omega
    rw [tokensFrom, tokensFrom, ih h h', token, token, if_pos hhere, if_pos hhere']

/-- Terminals that end a text are counted like those that do not if the last of them is not
counted to reach beyond it. -/
theorem tokensFrom_eq_iff {stop start : Nat} {ts : List Terminal}
    (hne : ∀ t ∈ ts, t.text ≠ [])
    (h : start + (ts.flatMap Terminal.text).length < stop) :
  tokensFrom (start + (ts.flatMap Terminal.text).length) start ts = tokensFrom stop start ts
    ↔ (ts.getLast?.map (·.kind.overhang)).getD 0 = 0
  := by
  rcases List.eq_nil_or_concat ts with rfl | ⟨before, t, rfl⟩
  · exact iff_of_true rfl rfl
  · rw [List.concat_eq_append] at hne h ⊢
    have hpos := List.length_pos_iff.mpr (hne t (by simp))
    rw [List.flatMap_append, List.length_append, List.flatMap_singleton] at h ⊢
    have hbefore := @tokensFrom_congr
      (start + ((before.flatMap Terminal.text).length + t.text.length)) stop start before
      (by omega) (by omega)
    rw [tokensFrom_append, tokensFrom_append, hbefore, List.append_cancel_left_eq,
      List.getLast?_concat]
    simp only [tokensFrom, token]
    rw [Nat.add_assoc, if_neg (Nat.lt_irrefl _), if_pos (by omega)]
    simp

/-- Where the text ends does not matter to strings. -/
theorem filter_unterminated_tokensFrom {ts : List Terminal}
    (h : ∀ t ∈ ts, t.unterminated = true → t.kind = .string) (stop stop' start : Nat) :
  (tokensFrom stop start ts).filter (·.flags.unterminated)
    = (tokensFrom stop' start ts).filter (·.flags.unterminated)
  := by
  induction ts generalizing start with
  | nil => rfl
  | cons t rest ih =>
    obtain ⟨hfirst, hrest⟩ := List.forall_mem_cons.mp h
    rw [tokensFrom, tokensFrom, List.filter_cons, List.filter_cons, ih hrest]
    cases hunterminated : t.unterminated with
    | true => simp [token, hfirst hunterminated, TokenKind.overhang]
    | false => simp [token, hunterminated]

end Terminal

/-! ### Cutting a text -/

/-- A token of the text starts at the offset, or none is left there. -/
def IsBoundary (source : List Char) (k : Nat) : Prop :=
  source.length ≤ k ∨ ∃ t ∈ properTokens source, t.start = k

/-- The tokens of a text are the given ones up to an offset and behind them those of the rest of
the text, so much further, whether or not a line break comes before them.  The strings without a
closing quote are those of the two parts. -/
structure SplitsAt (source : List Char) (k : Nat) (before : List Token) : Prop where
  tokens : (properTokens source).map Token.unmarked
    = (before ++ (properTokens (source.drop k)).map (Token.shift k)).map Token.unmarked
  unterminated : ((properTokens source).filter (·.flags.unterminated)).map Token.unmarked
    = ((properTokens (source.take k)).filter (·.flags.unterminated)
      ++ ((properTokens (source.drop k)).filter (·.flags.unterminated)).map
        (Token.shift k)).map Token.unmarked

/-- Where a token starts the terminals before it end. -/
theorem exists_terminals_append_of_mem_place {start : Nat} {afterLineBreak : Bool}
    {text : List Char} {t : Token} (h : t ∈ Token.place start afterLineBreak (lexemes text)) :
  ∃ ts us, terminals text = ts ++ us ∧ t.start = start + (ts.flatMap Terminal.text).length
  := by
  induction text using lexemes_induction generalizing start afterLineBreak with
  | nil =>
    rw [lexemes] at h
    cases h
  | cons c others rest htext ih =>
    rw [place_of_first_append htext] at h
    rcases List.mem_cons.mp h with rfl | h
    · exact ⟨[], _, rfl, rfl⟩
    · obtain ⟨ts, us, hterminals, hstart⟩ := ih h
      refine ⟨(Lexeme.first c others).terminal :: ts, us, ?_, ?_⟩
      · rw [terminals_of_first_append htext, hterminals, List.cons_append]
      · rw [hstart, List.flatMap_cons, List.length_append, Nat.add_assoc]
        rfl

/-- At a boundary the terminals of a text are cut in two. -/
theorem IsBoundary.exists_terminals_append {source : List Char} {k : Nat}
    (h : IsBoundary source k) :
  ∃ ts us, terminals source = ts ++ us ∧ source.take k = ts.flatMap Terminal.text
    ∧ source.drop k = us.flatMap Terminal.text
  := by
  rcases h with hend | ⟨t, ht, rfl⟩
  · refine ⟨terminals source, [], (List.append_nil _).symm, ?_, ?_⟩
    · rw [List.take_of_length_le hend, flatMap_text_terminals]
    · rw [List.drop_of_length_le hend, List.flatMap_nil]
  · obtain ⟨ts, us, hterminals, hstart⟩ := exists_terminals_append_of_mem_place ht
    have hsource := eq_append_of_terminals hterminals
    refine ⟨ts, us, hterminals, ?_, ?_⟩
    · rw [hsource, hstart, Nat.zero_add, List.take_left]
    · rw [hsource, hstart, Nat.zero_add, List.drop_left]

/-- A terminal that is left behind an offset stands there. -/
theorem lt_length_of_drop {source : List Char} {k : Nat} {u : Terminal} {us : List Terminal}
    (hmem : u ∈ terminals source) (hdrop : source.drop k = (u :: us).flatMap Terminal.text) :
  k < source.length
  := by
  have hpos := List.length_pos_iff.mpr (text_ne_nil_of_mem_terminals hmem)
  have hlength := congrArg List.length hdrop
  rw [List.length_drop, List.flatMap_cons, List.length_append] at hlength
  omega

/-- Among the terminals of a text only strings are left without an end. -/
theorem kind_of_mem_terminals {source : List Char} {t : Terminal} (h : t ∈ terminals source)
    (hunterminated : t.unterminated = true) :
  t.kind = .string
  := by
  obtain ⟨c, others, rfl⟩ := exists_first_of_mem_terminals h
  exact Lexeme.kind_of_unterminated hunterminated

/-- The tokens of a whole text, but for line breaks before them. -/
theorem map_unmarked_properTokens (source : List Char) :
  (properTokens source).map Token.unmarked
    = Terminal.tokensFrom source.length 0 (terminals source)
  := by
  rw [properTokens, map_unmarked_place, Nat.zero_add]

section

variable {source : List Char} {k : Nat} {ts us : List Terminal}
  (hterminals : terminals source = ts ++ us)

include hterminals

/-- The first part of a text has the terminals before the cut. -/
theorem map_unmarked_take (htake : source.take k = ts.flatMap Terminal.text) :
  (properTokens (source.take k)).map Token.unmarked
    = Terminal.tokensFrom (source.take k).length 0 ts
  := by
  rw [map_unmarked_properTokens, htake, terminals_flatMap_text_of_append hterminals]

/-- The second part of a text has the terminals behind the cut. -/
theorem map_unmarked_drop (hdrop : source.drop k = us.flatMap Terminal.text) :
  ((properTokens (source.drop k)).map (Token.shift k)).map Token.unmarked
    = Terminal.tokensFrom source.length k us
  := by
  have hshift : ((properTokens (source.drop k)).map (Token.shift k)).map Token.unmarked
      = ((properTokens (source.drop k)).map Token.unmarked).map (Token.shift k) := by
    rw [List.map_map, List.map_map]
    rfl
  have hus : terminals (source.drop k) = us := by rw [hdrop, terminals_flatMap_text hterminals]
  rw [hshift, map_unmarked_properTokens, Terminal.map_shift_tokensFrom, hus, Nat.zero_add]
  cases us with
  | nil => rfl
  | cons u us =>
    have hmem : u ∈ terminals source := hterminals ▸ List.mem_append_right ts List.mem_cons_self
    have hlt := lt_length_of_drop hmem hdrop
    rw [List.length_drop, Nat.sub_add_cancel hlt.le]

variable (htake : source.take k = ts.flatMap Terminal.text)
  (hdrop : source.drop k = us.flatMap Terminal.text)

include htake hdrop

/-- The tokens of a text are cut where its terminals are. -/
theorem map_unmarked_eq_append :
  (properTokens source).map Token.unmarked
    = Terminal.tokensFrom source.length 0 ts
      ++ ((properTokens (source.drop k)).map (Token.shift k)).map Token.unmarked
  := by
  rw [map_unmarked_properTokens, map_unmarked_drop hterminals hdrop, hterminals,
    Terminal.tokensFrom_append, Nat.zero_add, ← htake]
  cases us with
  | nil => rfl
  | cons u us =>
    have hmem : u ∈ terminals source := hterminals ▸ List.mem_append_right ts List.mem_cons_self
    have hlt := lt_length_of_drop hmem hdrop
    rw [List.length_take_of_le hlt.le]

theorem splitsAt_iff {before : List Token} :
  SplitsAt source k before
    ↔ before.map Token.unmarked = Terminal.tokensFrom source.length 0 ts
  := by
  have hfilter : ∀ tokens : List Token,
      (tokens.filter (·.flags.unterminated)).map Token.unmarked
        = (tokens.map Token.unmarked).filter (·.flags.unterminated) := by
    intro tokens
    rw [List.filter_map]
    rfl
  have hshift : ∀ tokens : List Token,
      (tokens.filter (·.flags.unterminated)).map (Token.shift k)
        = (tokens.map (Token.shift k)).filter (·.flags.unterminated) := by
    intro tokens
    rw [List.filter_map]
    rfl
  have hall := map_unmarked_eq_append hterminals htake hdrop
  constructor
  · intro h
    have htokens := h.tokens
    rw [hall, List.map_append] at htokens
    exact (List.append_cancel_right htokens).symm
  · intro h
    constructor
    · rw [hall, List.map_append, h]
    · rw [hfilter, hall, List.map_append, hfilter, hshift, hfilter, List.filter_append,
        map_unmarked_take hterminals htake]
      congr 1
      apply Terminal.filter_unterminated_tokensFrom
      intro t ht
      have hmem : t ∈ terminals source := hterminals ▸ List.mem_append_left us ht
      exact kind_of_mem_terminals hmem

end

/-- Lexing is local: where a token of a text starts, the text is cut into two parts whose tokens
are those of the text, once the last token before the cut is counted as in the whole text.  Each
part may be taken by itself exactly if it is cut behind no symbol of one character. -/
theorem splitsAt_of_isBoundary {source : List Char} {k : Nat} (h : IsBoundary source k) :
  SplitsAt source k ((properTokens (source.take k)).map (Token.endingAt source.length))
    ∧ (SplitsAt source k (properTokens (source.take k))
      ↔ (k < source.length → overhang (source.take k) = 0))
  := by
  obtain ⟨ts, us, hterminals, htake, hdrop⟩ := h.exists_terminals_append
  rw [splitsAt_iff hterminals htake hdrop, splitsAt_iff hterminals htake hdrop]
  constructor
  · have hending : ((properTokens (source.take k)).map (Token.endingAt source.length)).map
          Token.unmarked
        = ((properTokens (source.take k)).map Token.unmarked).map
          (Token.endingAt source.length) := by
      rw [List.map_map, List.map_map]
      rfl
    rw [hending, map_unmarked_take hterminals htake, Terminal.map_endingAt_tokensFrom]
  · rw [map_unmarked_take hterminals htake]
    by_cases hk : k < source.length
    · have hlength : (source.take k).length = 0 + (ts.flatMap Terminal.text).length := by
        rw [htake, Nat.zero_add]
      have hstop : 0 + (ts.flatMap Terminal.text).length < source.length := by
        rw [← hlength, List.length_take_of_le hk.le]
        exact hk
      have hne : ∀ t ∈ ts, t.text ≠ [] := by
        intro t ht
        have hmem : t ∈ terminals source := hterminals ▸ List.mem_append_left us ht
        exact text_ne_nil_of_mem_terminals hmem
      rw [hlength, Terminal.tokensFrom_eq_iff hne hstop, overhang_eq_getLast?_terminals, htake,
        terminals_flatMap_text_of_append hterminals]
      exact ⟨fun h _ => h, fun h => h hk⟩
    · rw [List.take_of_length_le (Nat.le_of_not_lt hk)]
      exact iff_of_true rfl fun hlt => absurd hlt hk

/-- A text can be cut behind a string that its line leaves open, though the string ends with an
escape and the cut takes the line break away from it. -/
theorem splitsAt_of_isBoundary_openString :
  IsBoundary "f(\"a\\\"\r\n=1.5//x".toList 6
    ∧ SplitsAt "f(\"a\\\"\r\n=1.5//x".toList 6
      ((properTokens ("f(\"a\\\"\r\n=1.5//x".toList.take 6)).map
        (Token.endingAt "f(\"a\\\"\r\n=1.5//x".toList.length))
    ∧ (SplitsAt "f(\"a\\\"\r\n=1.5//x".toList 6
        (properTokens ("f(\"a\\\"\r\n=1.5//x".toList.take 6))
      ↔ (6 < "f(\"a\\\"\r\n=1.5//x".toList.length →
        overhang ("f(\"a\\\"\r\n=1.5//x".toList.take 6) = 0))
  := by
  have hboundary : IsBoundary "f(\"a\\\"\r\n=1.5//x".toList 6 :=
    .inr ⟨⟨.newline, 6, ['\r', '\n'], {}, 0⟩, by decide +kernel, rfl⟩
  exact ⟨hboundary, splitsAt_of_isBoundary hboundary⟩

/-- Behind a bracket a text cannot be cut as if both parts stood by themselves: the bracket
would be counted twice as wide. -/
theorem not_splitsAt_openParen :
  IsBoundary "(1".toList 1 ∧ ¬ SplitsAt "(1".toList 1 (properTokens ("(1".toList.take 1))
  := by
  constructor
  · exact .inr ⟨⟨.integer, 1, ['1'], {}, 0⟩, by decide +kernel, rfl⟩
  · intro h
    have htokens := h.tokens
    revert htokens
    decide +kernel

end TriggerLang
