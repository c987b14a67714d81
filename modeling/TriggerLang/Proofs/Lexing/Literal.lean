import TriggerLang.Proofs.Lexing.Lossless

/-!
# String literals in their text

A string token of a text starts with a quote, and the lexer takes the pieces behind it up to
the end of the literal.  The value of the token is read from its text alone, which does not
show what comes next, and it is that of the same pieces.

A literal that is written for a value consists of pieces that stand in any text, so the lexer
stops at its closing quote whatever follows.
-/

namespace TriggerLang

/-! ### Literals that are read -/

/-- The token is the string literal that consists of the pieces and the end. -/
structure Token.IsReadAs (t : Token) (ps : List StringPiece) (ending : StringEnd) : Prop where
  text : t.text = '"' :: (ps.flatMap StringPiece.text ++ ending.text)
  terminated : t.flags.unterminated = false ↔ ending = .quote
  escaped : t.flags.escaped = true ↔ ending = .backslash ∨ ∃ p ∈ ps, p.isEscaped = true
  /-- A last quote is taken off the text where the lexer has seen it close the literal. -/
  closed : isClosed t.text.tail = true ↔ t.flags.unterminated = false
  /-- What is left between the quotes is decoded piece by piece. -/
  value : unquote t.text = ps.map StringPiece.value ++ ending.value

/-- The lexer makes the token of the pieces behind a quote. -/
theorem ScansString.isReadAs {inside : List Char} {ps : List StringPiece} {ending : StringEnd}
    (h : ScansString inside ps ending) (start : Nat) (afterLineBreak : Bool) :
  (Token.ofLexeme start afterLineBreak (Lexeme.first '"' inside)).IsReadAs ps ending
  := by
  have hstands := h.stands
  have hclosed := isClosed_pieces hstands ending
  rw [Lexeme.first_quote, h.stringBody_eq]
  constructor
  case text => rfl
  case terminated => exact bne_eq_false_iff_eq
  case escaped =>
    change (ps.any StringPiece.isEscaped || ending == .backslash) = true ↔ _
    rw [Bool.or_eq_true, List.any_eq_true, beq_iff_eq, or_comm]
  case closed =>
    change isClosed (ps.flatMap StringPiece.text ++ ending.text) = true
      ↔ (ending != .quote) = false
    rw [hclosed, beq_iff_eq, bne_eq_false_iff_eq]
  case value => exact unquote_pieces hstands ending

/-- The value of a string token is read as the lexer has read the text: the pieces behind its
opening quote, up to its end. -/
theorem exists_isReadAs {source : List Char} {t : Token} (ht : t ∈ tokens source)
    (hkind : t.kind = .string) :
  ∃ ps ending, ScansString (source.drop (t.start + 1)) ps ending ∧ t.IsReadAs ps ending
  := by
  have hproper : t ∈ properTokens source := by
    rcases mem_tokens_iff.mp ht with ht | rfl
    · exact ht
    · cases hkind
  obtain ⟨before, c, inside, hsource, hstart, htoken⟩ := exists_first_of_mem_place hproper
  have hquote : c = '"' := by
    rw [htoken] at hkind
    exact Lexeme.eq_of_first_kind_string hkind
  subst hquote
  obtain ⟨ps, ending, hscans⟩ := ScansString.exists_pieces inside
  have hinside : source.drop (t.start + 1) = inside := by
    rw [hsource, hstart, Nat.zero_add, ← List.drop_drop, List.drop_left]
    rfl
  refine ⟨ps, ending, ?_, ?_⟩
  · rw [hinside]
    exact hscans
  · rw [htoken]
    exact hscans.isReadAs _ _

/-- In `"\\\"" "\"` the first literal ends behind an escaped quote, and the second one, whose
last quote is escaped, does not end. -/
theorem exists_isReadAs_second_literal :
  ∃ ps ending,
    ScansString (("\"\\\\\\\"\" \"\\\"".toList).drop 8) ps ending
      ∧ Token.IsReadAs ⟨.string, 7, "\"\\\"".toList, ⟨false, true, true, true⟩, 0⟩ ps ending
  := exists_isReadAs (t := ⟨.string, 7, "\"\\\"".toList, ⟨false, true, true, true⟩, 0⟩)
    (by decide +kernel) rfl

/-! ### Literals that are written -/

/-- A text with a character replaced by others. -/
def replaceChar (text : List Char) (replacement : Char × List Char) : List Char :=
  text.flatMap fun c => if c = replacement.1 then replacement.2 else [c]

/-- What is replaced in a string, one character after another. -/
def replacements : List (Char × List Char) :=
  [('\\', ['\\', '\\']), ('"', ['\\', '"']), ('\n', ['\\', 'n']), ('\r', ['\\', 'r']),
    ('\t', ['\\', 't'])]

theorem foldl_replaceChar_append (rs : List (Char × List Char)) (first second : List Char) :
  rs.foldl replaceChar (first ++ second)
    = rs.foldl replaceChar first ++ rs.foldl replaceChar second
  := by
  induction rs generalizing first second with
  | nil => rfl
  | cons r rs ih =>
    rw [List.foldl_cons, replaceChar, List.flatMap_append, ih]
    rfl

/-- Since backslashes are replaced first, no character is replaced twice. -/
theorem foldl_replaceChar_singleton (c : Char) :
  replacements.foldl replaceChar [c] = escape c
  := by
  unfold escape
  split
  · rfl
  · rfl
  · rfl
  · rfl
  · rfl
  · simp_all [replacements, replaceChar]

/-- The replacements can be made in one pass. -/
theorem foldl_replaceChar_eq_flatMap_escape (value : List Char) :
  replacements.foldl replaceChar value = value.flatMap escape
  := by
  induction value with
  | nil => rfl
  | cons c rest ih =>
    rw [← List.singleton_append, foldl_replaceChar_append, ih, foldl_replaceChar_singleton]
    rfl

/-- The token is the literal that is written for the value, at the start of the text. -/
structure Token.IsWritten (t : Token) (source value : List Char) : Prop where
  kind : t.kind = .string
  terminated : t.flags.unterminated = false
  span : t.start = 0 ∧ t.stop = (quote value).length
  covers : t.span.slice source = quote value
  text : t.text = '"' :: (replacements.foldl replaceChar value ++ ['"'])
  value : unquote t.text = value

/-- A literal that is written is the first token of any text that starts with it. -/
theorem exists_tokens_quote (value rest : List Char) :
  ∃ t others, tokens (quote value ++ rest) = t :: others
    ∧ t.IsWritten (quote value ++ rest) value
  := by
  obtain ⟨inside, hinside, hscans⟩ := scansString_quote value rest
  let t := Token.ofLexeme 0 false (Lexeme.first '"' inside)
  have hread : t.IsReadAs (value.map StringPiece.ofChar) .quote := hscans.isReadAs 0 false
  have htext : t.text = quote value := hread.text.trans (quote_eq_pieces value).symm
  have hoverhang : t.overhang = 0 := by
    change (Lexeme.first '"' inside).overhang = 0
    rw [Lexeme.first_quote]
    exact Lexeme.stringBody_overhang inside
  have hproper : ∃ others, properTokens (quote value ++ rest) = t :: others := by
    rw [properTokens, hinside, lexemes]
    exact ⟨_, rfl⟩
  obtain ⟨others, hothers⟩ := hproper
  refine ⟨t, others ++ [endToken (quote value ++ rest)], ?_, ?_⟩
  · rw [tokens, hothers]
    rfl
  constructor
  case kind =>
    change (Lexeme.first '"' inside).kind = .string
    rw [Lexeme.first_quote]
    exact Lexeme.stringBody_kind inside
  case terminated => exact hread.terminated.mpr rfl
  case span =>
    refine ⟨rfl, ?_⟩
    rw [Token.stop, htext, hoverhang]
    exact Nat.zero_add _
  case covers =>
    have hmem : t ∈ properTokens (quote value ++ rest) := by
      rw [hothers]
      exact List.mem_cons_self
    exact (slice_of_mem_properTokens hmem).trans htext
  case text =>
    rw [htext, foldl_replaceChar_eq_flatMap_escape]
    rfl
  case value =>
    rw [htext]
    exact unquote_quote value

end TriggerLang
