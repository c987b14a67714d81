import Mathlib.Data.List.Chain
import Mathlib.Data.List.Forall2
import TriggerLang.Proofs.Lexing.Place
import TriggerLang.Token.Listing

/-!
# Tokens make up their text

The tokens of a text follow one another without gaps, from the start of the text to the token
that marks its end, and their characters make up the text.  A line break comes before a token
if a line break is among the tokens before it and there is nothing but trivia in between.
Each string without a closing quote is reported where it stands.  The end of the text is
where its characters end, unless the text ends with a symbol of one character: that symbol
is counted as wide as the window it is looked for in, and so the end lies one further.
-/

namespace TriggerLang

/-- The last of some tokens, but for trivia, is a line break. -/
def EndsInLineBreak (ts : List Token) : Prop :=
  ∃ before newline trivia, ts = before ++ newline :: trivia ∧ newline.kind = .newline
    ∧ ∀ t ∈ trivia, t.kind.isTrivia = true

/-- Tokens with diagnostics make up a text that is counted to end at an offset. -/
structure Lossless (source : List Char) (stop : Nat) (ts : List Token) (ds : List Diagnostic) :
    Prop where
  /-- The last token, and no other one, marks the end of the text. -/
  ends : ∃ proper last, ts = proper ++ [last] ∧ last.kind = .endOfText
    ∧ ∀ t ∈ proper, t.kind ≠ .endOfText
  /-- The end of the text is empty and has its place. -/
  end_eq : ∀ t ∈ ts, t.kind = .endOfText → t.start = stop ∧ t.stop = stop
  nonempty : ∀ t ∈ ts, t.kind ≠ .endOfText → t.start < t.stop
  starts : ∀ t ∈ ts.head?, t.start = 0
  contiguous : ts.IsChain fun t u => u.start = t.stop
  texts : ts.flatMap (·.span.slice source) = source
  lineBreaks : ∀ before t after, ts = before ++ t :: after → t.kind ≠ .endOfText →
    (t.flags.afterLineBreak = true ↔ EndsInLineBreak before)
  /-- The diagnostics are those of the unterminated strings, each at its string. -/
  unterminated : List.Forall₂
    (fun d t => d = .of .unterminatedString d.region
      ∧ d.region.start = .ofOffset source t.start ∧ d.region.stop = .ofOffset source t.stop)
    ds (ts.filter (·.flags.unterminated))

/-! ### Line breaks -/

theorem not_endsInLineBreak_nil :
  ¬ EndsInLineBreak []
  := fun ⟨before, newline, trivia, h, _⟩ => by simp at h

theorem endsInLineBreak_append_singleton (ts : List Token) (t : Token) :
  EndsInLineBreak (ts ++ [t])
    ↔ t.kind = .newline ∨ t.kind.isTrivia = true ∧ EndsInLineBreak ts
  := by
  constructor
  · rintro ⟨before, newline, trivia, hts, hnewline, htrivia⟩
    rcases List.eq_nil_or_concat trivia with rfl | ⟨others, last, rfl⟩
    · obtain ⟨-, ⟨⟩⟩ := List.append_inj' hts rfl
      exact .inl hnewline
    · rw [List.concat_eq_append, ← List.cons_append, ← List.append_assoc] at hts
      obtain ⟨rfl, ⟨⟩⟩ := List.append_inj' hts rfl
      rw [List.concat_eq_append, List.forall_mem_append] at htrivia
      exact .inr ⟨htrivia.2 _ (List.mem_singleton_self _), before, newline, others, rfl, hnewline,
        htrivia.1⟩
  · rintro (hkind | ⟨hkind, before, newline, trivia, rfl, hnewline, htrivia⟩)
    · exact ⟨ts, t, [], rfl, hkind, nofun⟩
    · refine ⟨before, newline, trivia ++ [t], by simp, hnewline, ?_⟩
      exact List.forall_mem_append.mpr ⟨htrivia, List.forall_mem_singleton.mpr hkind⟩

namespace Token

/-- A line break comes before what follows some tokens. -/
def breaksLineAfter (afterLineBreak : Bool) (ts : List Token) : Bool :=
  ts.foldl (fun afterLineBreak t => breaksLine t.kind afterLineBreak) afterLineBreak

theorem breaksLineAfter_eq_true_iff (ts : List Token) :
  breaksLineAfter false ts = true ↔ EndsInLineBreak ts
  := by
  induction ts using List.reverseRecOn with
  | nil => exact iff_of_false nofun not_endsInLineBreak_nil
  | append_singleton ts t ih =>
    rw [endsInLineBreak_append_singleton, ← ih, breaksLineAfter, List.foldl_append]
    simp [breaksLineAfter, breaksLine]

/-- What is known of a line break before a token is what the tokens before it leave. -/
theorem afterLineBreak_of_place {start : Nat} {afterLineBreak : Bool} {ls : List Lexeme}
    {before after : List Token} {t : Token}
    (h : place start afterLineBreak ls = before ++ t :: after) :
  t.flags.afterLineBreak = breaksLineAfter afterLineBreak before
  := by
  induction before generalizing start afterLineBreak ls with
  | nil =>
    cases ls with
    | nil => cases h
    | cons lexeme rest =>
      cases h
      rfl
  | cons first before ih =>
    cases ls with
    | nil => cases h
    | cons lexeme rest =>
      obtain ⟨rfl, hrest⟩ := List.cons.inj h
      exact ih hrest

/-! ### Places -/

variable (start : Nat) (afterLineBreak : Bool) (ls : List Lexeme)

theorem start_of_mem_head?_place {t : Token} (h : t ∈ (place start afterLineBreak ls).head?) :
  t.start = start
  := by
  cases ls with
  | nil => cases h
  | cons lexeme rest =>
    cases h
    rfl

theorem isChain_place :
  (place start afterLineBreak ls).IsChain fun t u => u.start = t.stop
  := by
  induction ls generalizing start afterLineBreak with
  | nil => exact .nil
  | cons lexeme rest ih =>
    rw [place, List.isChain_cons]
    exact ⟨fun u hu => start_of_mem_head?_place _ _ rest hu, ih _ _⟩

theorem flatMap_text_place :
  (place start afterLineBreak ls).flatMap text = ls.flatMap Lexeme.text
  := by
  induction ls generalizing start afterLineBreak with
  | nil => rfl
  | cons lexeme rest ih =>
    rw [place, List.flatMap_cons, List.flatMap_cons, ih]
    rfl

end Token

theorem Lexeme.first_kind_ne_endOfText (c : Char) (others : List Char) :
  (first c others).kind ≠ .endOfText
  := by
  have hfirst := isFirst_first c others
  generalize first c others = lexeme at hfirst
  cases hfirst with
  | string => simp [stringBody_kind]
  | number => rcases number_kind (c :: others) with hkind | hkind <;> simp [hkind]
  | _ => exact nofun

section

variable {source : List Char} {t : Token}

/-- A token has the kind and the text of a first lexeme. -/
theorem exists_first_of_mem_properTokens (h : t ∈ properTokens source) :
  ∃ c others, t.kind = (Lexeme.first c others).kind ∧ t.text = (Lexeme.first c others).text
  := by
  have hterminal : t.terminal ∈ terminals source := by
    rw [terminals, ← Token.map_terminal_place 0 false]
    exact List.mem_map_of_mem h
  obtain ⟨c, others, hfirst⟩ := exists_first_of_mem_terminals hterminal
  exact ⟨c, others, congrArg Terminal.kind hfirst, congrArg Terminal.text hfirst⟩

/-- The text goes on with the characters of a token where the token starts. -/
theorem exists_drop_start_eq (h : t ∈ properTokens source) :
  ∃ after, source.drop t.start = t.text ++ after ∧ (t.overhang ≠ 0 → after = [])
  := by
  obtain ⟨before, after, hsource, hstart, hoverhang⟩ := exists_append_of_mem_properTokens h
  refine ⟨after, ?_, hoverhang⟩
  rw [hsource, hstart, List.append_assoc, List.drop_left]

/-- A token covers its characters. -/
theorem slice_of_mem_properTokens (h : t ∈ properTokens source) :
  t.span.slice source = t.text
  := by
  obtain ⟨after, hdrop, hoverhang⟩ := exists_drop_start_eq h
  have hlength : t.stop - t.start = t.text.length + t.overhang :=
    Nat.add_sub_cancel_left _ _
  change (source.drop t.start).take (t.stop - t.start) = t.text
  rw [hdrop, hlength]
  by_cases hzero : t.overhang = 0
  · rw [hzero, Nat.add_zero, List.take_left]
  · rw [hoverhang hzero, List.append_nil, List.take_of_length_le (Nat.le_add_right _ _)]

theorem kind_ne_of_mem_properTokens (h : t ∈ properTokens source) :
  t.kind ≠ .endOfText
  := by
  obtain ⟨c, others, hkind, -⟩ := exists_first_of_mem_properTokens h
  rw [hkind]
  exact Lexeme.first_kind_ne_endOfText c others

theorem start_lt_stop_of_mem_properTokens (h : t ∈ properTokens source) :
  t.start < t.stop
  := by
  obtain ⟨c, others, -, htext⟩ := exists_first_of_mem_properTokens h
  have hpos := List.length_pos_iff.mpr (Lexeme.first_text_ne_nil c others)
  rw [← htext] at hpos
  rw [Token.stop]
  omega

theorem mem_tokens_iff :
  t ∈ tokens source ↔ t ∈ properTokens source ∨ t = endToken source
  := by
  rw [tokens, List.mem_append, List.mem_singleton]

/-- The first token starts where the text does. -/
theorem start_of_mem_head?_tokens (h : t ∈ (tokens source).head?) :
  t.start = 0
  := by
  rw [tokens] at h
  cases hproper : properTokens source with
  | nil =>
    rw [hproper] at h
    cases h
    simp [endToken, hproper]
  | cons first rest =>
    rw [hproper] at h
    cases h
    exact Token.start_of_mem_head?_place 0 false (lexemes source) (congrArg List.head? hproper)

/-- The end of a text is no unterminated string. -/
theorem filter_unterminated_tokens (source : List Char) :
  (tokens source).filter (·.flags.unterminated)
    = (properTokens source).filter (·.flags.unterminated)
  := by
  rw [tokens, List.filter_append]
  exact List.append_nil _

/-- A token that is not the end of the text is one of the proper tokens. -/
theorem exists_properTokens_eq_append {before after : List Token}
    (h : tokens source = before ++ t :: after) (hkind : t.kind ≠ .endOfText) :
  ∃ others, properTokens source = before ++ t :: others
  := by
  rcases List.eq_nil_or_concat after with rfl | ⟨others, last, rfl⟩
  · obtain ⟨-, hlast⟩ := List.append_inj' h rfl
    cases hlast
    exact absurd rfl hkind
  · rw [tokens, List.concat_eq_append, ← List.cons_append, ← List.append_assoc] at h
    exact ⟨others, (List.append_inj' h rfl).1⟩

end

/-! ### Whole texts -/

/-- The tokens of a text make up the text and are reported as they are; the end of the text
lies where its characters end, but for a last symbol of one character. -/
theorem lossless_tokens (source : List Char) :
  Lossless source (source.length + overhang source) (tokens source) (tokenDiagnostics source)
  := by
  have hend : (endToken source).start = source.length + overhang source := endToken_start source
  constructor
  case ends =>
    exact ⟨properTokens source, endToken source, rfl, rfl, fun t ht =>
      kind_ne_of_mem_properTokens ht⟩
  case end_eq =>
    intro t ht hkind
    rcases mem_tokens_iff.mp ht with ht | rfl
    · exact absurd hkind (kind_ne_of_mem_properTokens ht)
    · exact ⟨hend, hend⟩
  case nonempty =>
    intro t ht hkind
    rcases mem_tokens_iff.mp ht with ht | rfl
    · exact start_lt_stop_of_mem_properTokens ht
    · exact absurd rfl hkind
  case starts => exact fun t ht => start_of_mem_head?_tokens ht
  case contiguous =>
    rw [tokens, List.isChain_append]
    refine ⟨Token.isChain_place _ _ _, .singleton _, ?_⟩
    rintro t ht u ⟨⟩
    simp [endToken, Option.mem_def.mp ht]
  case texts =>
    rw [tokens, List.flatMap_append, List.flatMap_congr fun t ht => slice_of_mem_properTokens ht,
      properTokens, Token.flatMap_text_place, flatMap_text_lexemes]
    simp [Text.Span.slice, Token.span, Token.stop, endToken]
  case lineBreaks =>
    intro before t after hts hkind
    obtain ⟨others, hproper⟩ := exists_properTokens_eq_append hts hkind
    rw [Token.afterLineBreak_of_place hproper, Token.breaksLineAfter_eq_true_iff]
  case unterminated =>
    rw [filter_unterminated_tokens, tokenDiagnostics, List.forall₂_map_left_iff,
      List.forall₂_same]
    exact fun t _ => ⟨rfl, rfl, Text.Region.ofSpan_stop source t.span⟩

/-- A bracket at the end of a text moves the end behind it by one. -/
theorem not_lossless_closeParen :
  ¬ Lossless [')'] [')'].length (tokens [')']) (tokenDiagnostics [')'])
  := by
  intro h
  have hend := h.end_eq (endToken [')']) (mem_tokens_iff.mpr (.inr rfl)) rfl
  have hstart : (endToken [')']).start = 2 := by decide +kernel
  exact absurd (hend.1.symm.trans hstart) (by decide)

end TriggerLang
