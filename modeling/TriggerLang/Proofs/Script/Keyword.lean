import TriggerLang.Proofs.Grammar.Derivation
import TriggerLang.Proofs.Lexing.Stability
import TriggerLang.Proofs.Render.Written
import TriggerLang.Proofs.Script.Classification

/-!
# First words of lines

The first token of a trimmed line that is no comment starts at its first character.  It decides
whether the line is one of a block, and what the grammar can make of it: nothing that the
grammar accepts starts with a keyword of blocks.
-/

namespace TriggerLang

/-! ### First tokens -/

namespace Lexeme

variable {c : Char} {others : List Char}

/-- A text that starts neither with white space nor with a comment starts with a token that
means something. -/
theorem isSignificant_first (hblank : Text.isBlank c = false)
    (hcomment : ¬ (c = '/' ∧ others.head? = some '/')) :
  (first c others).kind.isSignificant = true
  := by
  have hfirst := isFirst_first c others
  generalize first c others = lexeme at hfirst
  cases hfirst with
  | newline hbreak =>
    rw [Text.isLineBreak, Bool.or_eq_true, beq_iff_eq, beq_iff_eq] at hbreak
    rcases hbreak with rfl | rfl <;> cases hblank
  | whitespace hspace =>
    rw [isSpace, Bool.or_eq_true, beq_iff_eq, beq_iff_eq] at hspace
    rcases hspace with rfl | rfl <;> cases hblank
  | comment hslashes => exact absurd hslashes hcomment
  | string => simp [stringBody_kind, TokenKind.isSignificant]
  | number =>
    rcases number_kind (c :: others) with hkind | hkind <;>
      simp [hkind, TokenKind.isSignificant]
  | _ => rfl

/-- The sign of a trigger stands for itself. -/
theorem eq_of_first_kind_at (h : (first c others).kind = .symbol .at) :
  c = '@'
  := by
  have hfirst := isFirst_first c others
  generalize first c others = lexeme at h hfirst
  cases hfirst with
  | string => simp [stringBody_kind] at h
  | number => rcases number_kind (c :: others) with hkind | hkind <;> simp [hkind] at h
  | symbol _ hs =>
    cases h
    have hfound := List.find?_some hs
    have hprefix : ('@' == c && [].isPrefixOf others) = true := hfound
    exact (beq_iff_eq.mp (Bool.and_eq_true_iff.mp hprefix).1).symm
  | _ => cases h

end Lexeme

section

variable {c : Char} {others : List Char}
  (hsignificant : (Lexeme.first c others).kind.isSignificant = true)

include hsignificant

theorem exists_significantTokens_cons :
  ∃ tokens, significantTokens (c :: others)
    = Token.ofLexeme 0 false (Lexeme.first c others) :: tokens
  := by
  obtain ⟨rest, htext, -⟩ := exists_first_append c others
  rw [significantTokens, properTokens, lexemes_of_first_append htext, Token.place,
    List.filter_cons_of_pos (by simpa [Token.ofLexeme] using hsignificant)]
  exact ⟨_, rfl⟩

theorem exists_meaning_cons (literals : List (List Char × List Char)) :
  ∃ ts, meaning literals (c :: others)
    = (Lexeme.first c others).terminal.substituted literals false :: ts
  := by
  obtain ⟨rest, htext, -⟩ := exists_first_append c others
  have hsubstituted : ((Lexeme.first c others).terminal.substituted literals false).isSignificant
      = true := by
    rcases (Lexeme.first c others).terminal.substituted_eq_or literals false with heq | hstring
    · rw [heq]
      exact hsignificant
    · rw [Terminal.isSignificant, hstring]
      rfl
  rw [meaning, terminals_of_first_append htext, substituteAll,
    List.filter_cons_of_pos hsubstituted]
  exact ⟨_, rfl⟩

end

/-! ### Keywords of blocks -/

theorem Grammar.isKeyword_of_mem {w : String} (h : w ∈ ["if", "else", "end"]) :
  isKeyword w
  := by
  simp only [List.mem_cons, List.not_mem_nil, or_false] at h
  rcases h with rfl | rfl | rfl <;> decide

/-- An operator that is a word is no keyword of blocks. -/
theorem Grammar.notMem_of_operator? {t : Terminal} {op : Operator} (hop : t.operator? = some op)
    (hkind : t.kind = .identifier) :
  t.word ∉ ["if", "else", "end"]
  := by
  rw [Terminal.operator?, hkind] at hop
  simp only at hop
  split at hop
  · rename_i hword
    rw [hword]
    decide
  · split at hop
    · rename_i hword
      rw [hword]
      decide
    · cases hop

/-- What holds of a terminal and of the first one before it holds of the first one. -/
theorem Grammar.forall_mem_head?_append_cons {p : Terminal → Prop} {ts us : List Terminal}
    {t : Terminal} (hts : ∀ u ∈ ts.head?, p u) (ht : p t) :
  ∀ u ∈ (ts ++ t :: us).head?, p u
  := by
  cases ts with
  | nil =>
    rintro u ⟨⟩
    exact ht
  | cons first rest =>
    rintro u ⟨⟩
    exact hts first rfl

/-- Nothing that is derived starts with a keyword of blocks. -/
theorem Grammar.Derives.head_notMem {scope : Parse.Scope} {phrase : Phrase} {ts : List Terminal}
    (h : Derives scope phrase ts) :
  ∀ t ∈ ts.head?, t.kind = .identifier → t.word ∉ ["if", "else", "end"]
  := by
  induction h with
  | loosen _ _ ih => exact ih
  | binary hop _ _ ihleft _ => exact forall_mem_head?_append_cons ihleft (notMem_of_operator? hop)
  | negative hsymbol | group hsymbol =>
    rintro t ⟨⟩ hkind
    rw [hsymbol] at hkind
    cases hkind
  | call _ hword | emptyCall _ hword | constant _ hword | declared _ hword =>
    rintro t ⟨⟩ _ hmem
    exact hword (isKeyword_of_mem hmem)
  | trueWord _ hword | falseWord _ hword =>
    rintro t ⟨⟩ _
    rw [hword]
    decide
  | integer hkind | float hkind | string hkind =>
    rintro t ⟨⟩ hidentifier
    rw [hkind] at hidentifier
    cases hidentifier
  | first _ ih => exact ih
  | further hcomma _ _ ihs _ =>
    apply forall_mem_head?_append_cons ihs
    intro hkind
    rw [hcomma] at hkind
    cases hkind

/-! ### Kinds of lines -/

/-- A line that is not blank is trimmed once its margins are trimmed off. -/
theorem trimmed_of_kind {text : List Char} (h : (classifyLine (Text.trim text)).kind ≠ .blank) :
  Text.Trimmed (Text.trim text)
  := by
  apply Text.trimmed_trim
  intro hnil
  rw [hnil] at h
  exact h rfl

theorem all_isBlank_cons {c : Char} (hblank : Text.isBlank c = false) (others : List Char) :
  ¬ (c :: others).all Text.isBlank = true
  := by
  simp [hblank]

theorem not_isPrefixOf_slashes {c : Char} (h : c ≠ '/') (others : List Char) :
  ¬ "//".toList.isPrefixOf (c :: others) = true
  := by
  simp [List.isPrefixOf, h.symm]

theorem not_isPrefixOf_sign {c : Char} (h : c ≠ '@') (others : List Char) :
  ¬ "@".toList.isPrefixOf (c :: others) = true
  := by
  simp [List.isPrefixOf, h.symm]

/-- Nothing is left of a blank line once its margins are trimmed off. -/
theorem trim_of_kind_blank {text : List Char} (h : (classifyLine (Text.trim text)).kind = .blank) :
  Text.trim text = []
  := by
  by_contra hne
  obtain ⟨c, others, htext, hblank⟩ := (Text.trimmed_trim hne).starts
  rw [htext] at h
  have hclassifies := classifies_classifyLine (c :: others)
  generalize classifyLine (c :: others) = classified at h hclassifies
  cases hclassifies with
  | blank hall => exact all_isBlank_cons hblank others hall
  | _ => cases h

/-- A line that is classified as an action starts neither like a comment nor like a trigger. -/
theorem of_classifyLine_kind_action {line : List Char} (h : (classifyLine line).kind = .action) :
  ¬ "//".toList.isPrefixOf line = true ∧ ¬ "@".toList.isPrefixOf line = true
    ∧ (classifyLine line).body = line
  := by
  have hclassifies := classifies_classifyLine line
  generalize classifyLine line = classified at h hclassifies ⊢
  cases hclassifies with
  | action hcomment hat => exact ⟨hcomment, hat, rfl⟩
  | _ => cases h

/-- What starts with two slashes starts like a comment. -/
theorem isPrefixOf_slashes {c : Char} {others : List Char}
    (h : c = '/' ∧ others.head? = some '/') :
  "//".toList.isPrefixOf (c :: others) = true
  := by
  obtain ⟨rfl, hhead⟩ := h
  obtain ⟨rest, rfl⟩ := List.head?_eq_some_iff.mp hhead
  rfl

/-- An action is no trigger. -/
theorem derives_of_kind_action {scope : Parse.Scope} {literals : List (List Char × List Char)}
    {line : List Char} {f : Fragment} (hkind : (classifyLine line).kind = .action)
    (htrimmed : Text.Trimmed line) (h : Grammar.DerivesLine scope f (meaning literals line)) :
  Grammar.Derives scope (.value .expression f) (meaning literals line)
  := by
  obtain ⟨hcomment, hat, -⟩ := of_classifyLine_kind_action hkind
  obtain ⟨c, others, rfl, hblank⟩ := htrimmed.starts
  have hsignificant := Lexeme.isSignificant_first hblank fun h => hcomment (isPrefixOf_slashes h)
  obtain ⟨ts, hmeaning⟩ := exists_meaning_cons hsignificant literals
  rw [hmeaning] at h ⊢
  cases h with
  | expression h => exact h
  | trigger hsign =>
    exfalso
    apply hat
    rcases (Lexeme.first c others).terminal.substituted_eq_or literals false with heq | hstring
    · rw [heq] at hsign
      rw [Lexeme.eq_of_first_kind_at hsign]
      rfl
    · rw [hstring] at hsign
      cases hsign

/-- A text that looks like an operand and is derived is classified as an action. -/
theorem classifyLine_of_derives {scope : Parse.Scope} (v : Vocabulary) {phrase : Grammar.Phrase}
    {text : List Char} (hneat : Neat text)
    (h : Grammar.Derives scope phrase (meaning v.literals text)) :
  classifyLine text = { kind := .action, text, body := text }
  := by
  obtain ⟨c, rest, rfl, hc⟩ := hneat.starts
  have hslash : c ≠ '/' := by
    rcases hc with rfl | rfl | rfl | hc
    · decide
    · decide
    · decide
    · rintro rfl
      exact absurd hc (by decide)
  have hat : c ≠ '@' := by
    rcases hc with rfl | rfl | rfl | hc
    · decide
    · decide
    · decide
    · rintro rfl
      exact absurd hc (by decide)
  obtain ⟨c', rest', hcons, hblank⟩ := hneat.trimmed.starts
  cases hcons
  have hsignificant := Lexeme.isSignificant_first hblank fun h : c = '/' ∧ rest.head? = some '/' =>
    hslash h.1
  obtain ⟨tokens, htokens⟩ := exists_significantTokens_cons hsignificant
  obtain ⟨ts, hmeaning⟩ := exists_meaning_cons hsignificant v.literals
  have hword : ∀ w ∈ ["if", "else", "end"],
      (Token.ofLexeme 0 false (Lexeme.first c rest)).isWord w = false := by
    intro w hw
    rw [Bool.eq_false_iff]
    intro hword
    rw [Token.isWord, Bool.and_eq_true, beq_iff_eq, beq_iff_eq] at hword
    obtain ⟨hkind, rfl⟩ := hword
    have hkeyword : Grammar.isKeyword (Lexeme.first c rest).terminal.word :=
      Grammar.isKeyword_of_mem hw
    have hliteral := v.keyword _ hkeyword
    rw [Terminal.word, String.toList_ofList] at hliteral
    rw [hmeaning, Terminal.substituted_of_lookup_none hliteral] at h
    exact h.head_notMem _ rfl hkind hw
  have hleading : leadingKeyword? (c :: rest) = none := by
    rw [leadingKeyword?, htokens]
    simp [hword]
  rw [classifyLine, if_neg (all_isBlank_cons hblank rest), if_neg (not_isPrefixOf_slashes hslash _),
    if_neg (not_isPrefixOf_sign hat _), hleading]

/-- A line that starts with `if` opens a block. -/
theorem classifyLine_if {rest : List Char} (h : ∀ c ∈ rest.head?, Text.isWordPart c = false) :
  classifyLine ('i' :: 'f' :: rest)
    = { kind := .blockStart, text := 'i' :: 'f' :: rest, bodyOffset := 2, body := rest }
  := by
  have hfirst : Lexeme.first 'i' ('f' :: rest) = { kind := .identifier, text := ['i', 'f'] } := by
    have hword : ∀ c ∈ ['f'], Text.isWordPart c = true :=
      List.forall_mem_singleton.mpr (by decide)
    have htake : ('f' :: rest).takeWhile Text.isWordPart = ['f'] :=
      List.takeWhile_append_of_head hword h
    rw [Lexeme.first_of_isWordStart (by decide)]
    exact congrArg (fun text => (⟨.identifier, 'i' :: text, false, false, 0⟩ : Lexeme)) htake
  have hsignificant : (Lexeme.first 'i' ('f' :: rest)).kind.isSignificant = true := by
    rw [hfirst]
    rfl
  obtain ⟨tokens, htokens⟩ := exists_significantTokens_cons hsignificant
  have hleading : leadingKeyword? ('i' :: 'f' :: rest) = some (.blockStart, 2) := by
    rw [leadingKeyword?, htokens, hfirst]
    rfl
  rw [classifyLine, if_neg (all_isBlank_cons (by decide) _),
    if_neg (not_isPrefixOf_slashes (by decide) _), if_neg (not_isPrefixOf_sign (by decide) _),
    hleading]
  rfl

/-- The keyword that lines of a kind start with. -/
def LineKind.keyword : LineKind → List Char
  | .blockStart => "if".toList
  | .blockElse => "else".toList
  | .blockEnd => "end".toList
  | _ => []

/-- A keyword of blocks is the first token of its line. -/
theorem of_leadingKeyword? {c : Char} {others : List Char}
    (hsignificant : (Lexeme.first c others).kind.isSignificant = true) {kind : LineKind}
    {stop : Nat} (h : leadingKeyword? (c :: others) = some (kind, stop)) :
  (Lexeme.first c others).text = kind.keyword ∧ stop = kind.keyword.length
  := by
  obtain ⟨tokens, htokens⟩ := exists_significantTokens_cons hsignificant
  have hkeyword : ∀ {word : String} {kind : LineKind}, kind.keyword = word.toList →
      (Token.ofLexeme 0 false (Lexeme.first c others)).isWord word = true →
      (Lexeme.first c others).text = kind.keyword
        ∧ (Token.ofLexeme 0 false (Lexeme.first c others)).stop = kind.keyword.length := by
    intro word kind hkind hword
    rw [Token.isWord, Bool.and_eq_true, beq_iff_eq, beq_iff_eq] at hword
    have htext : (Lexeme.first c others).text = kind.keyword := by
      rw [hkind, ← hword.2, Token.word, String.toList_ofList]
      rfl
    have hoverhang : (Lexeme.first c others).overhang = 0 := by
      rw [Lexeme.first_of_isWordStart (Lexeme.isWordStart_of_first_kind hword.1)]
    refine ⟨htext, ?_⟩
    rw [Token.stop, Token.ofLexeme, hoverhang, htext, Nat.zero_add, Nat.add_zero]
  rw [leadingKeyword?, htokens] at h
  simp only at h
  split at h
  · cases h
    exact hkeyword rfl ‹_›
  split at h
  · cases h
    exact hkeyword rfl (Bool.and_eq_true_iff.mp ‹_›).1
  split at h
  · cases h
    exact hkeyword rfl (Bool.and_eq_true_iff.mp ‹_›).1
  · cases h

/-- A trimmed line that is no comment starts with its keyword, and its body comes next. -/
theorem exists_keyword_append {line : List Char} (htrimmed : Text.Trimmed line)
    (hkind : (classifyLine line).kind ≠ .comment) :
  ∃ rest, line = (classifyLine line).kind.keyword ++ rest
    ∧ (classifyLine line).bodyOffset = (classifyLine line).kind.keyword.length
    ∧ (classifyLine line).body <+: rest
  := by
  obtain ⟨c, others, rfl, hblank⟩ := htrimmed.starts
  obtain ⟨rest, htext, -⟩ := exists_first_append c others
  have hleading : ¬ "//".toList.isPrefixOf (c :: others) = true → ∀ {kind stop},
      leadingKeyword? (c :: others) = some (kind, stop) →
      c :: others = kind.keyword ++ rest ∧ stop = kind.keyword.length := by
    intro hcomment kind stop hkeyword
    obtain ⟨hfirst, hstop⟩ := of_leadingKeyword?
      (Lexeme.isSignificant_first hblank fun h => hcomment (isPrefixOf_slashes h)) hkeyword
    exact ⟨hfirst ▸ htext, hstop⟩
  have hclassifies := classifies_classifyLine (c :: others)
  generalize classifyLine (c :: others) = classified at hkind hclassifies ⊢
  cases hclassifies with
  | blank hall => exact absurd hall (all_isBlank_cons hblank others)
  | comment => exact absurd rfl hkind
  | trigger | action => exact ⟨c :: others, rfl, rfl, List.prefix_rfl⟩
  | @blockStart hcomment stop hkeyword =>
    obtain ⟨hline, hstop⟩ := hleading hcomment hkeyword
    have hdrop : (c :: others).drop stop = rest := by rw [hline, hstop, List.drop_left]
    exact ⟨rest, hline, hstop, [], (List.append_nil _).trans hdrop⟩
  | blockElse hcomment hkeyword | blockEnd hcomment hkeyword =>
    obtain ⟨hline, hstop⟩ := hleading hcomment hkeyword
    exact ⟨rest, hline, hstop, List.nil_prefix⟩

/-- A keyword of blocks is a word, and but for `if` it stands alone. -/
theorem exists_of_leadingKeyword? {line : List Char} {kind : LineKind} {stop : Nat}
    (h : leadingKeyword? line = some (kind, stop)) :
  ∃ keyword others, significantTokens line = keyword :: others ∧ keyword.kind = .identifier
    ∧ (kind ≠ .blockStart → others = [])
  := by
  rw [leadingKeyword?] at h
  cases htokens : significantTokens line with
  | nil => simp [htokens] at h
  | cons keyword others =>
    refine ⟨keyword, others, rfl, ?_⟩
    have hword : ∀ word, keyword.isWord word = true → keyword.kind = .identifier := by
      intro word hword
      rw [Token.isWord, Bool.and_eq_true, beq_iff_eq] at hword
      exact hword.1
    rw [htokens] at h
    simp only at h
    split at h
    · cases h
      exact ⟨hword _ ‹_›, fun hne => absurd rfl hne⟩
    split at h
    · obtain ⟨helse, hempty⟩ := Bool.and_eq_true_iff.mp ‹_›
      exact ⟨hword _ helse, fun _ => List.isEmpty_iff.mp hempty⟩
    split at h
    · obtain ⟨hend, hempty⟩ := Bool.and_eq_true_iff.mp ‹_›
      exact ⟨hword _ hend, fun _ => List.isEmpty_iff.mp hempty⟩
    · cases h

/-- A line of a block starts with its keyword; what comes after `if` is the condition. -/
theorem of_classifyLine_kind_keyword {line : List Char}
    (h : (classifyLine line).kind ∈ [.blockStart, .blockElse, .blockEnd]) :
  ¬ "//".toList.isPrefixOf line = true
    ∧ ∃ stop, leadingKeyword? line = some ((classifyLine line).kind, stop)
      ∧ ((classifyLine line).kind = .blockStart → (classifyLine line).body = line.drop stop)
  := by
  have hclassifies := classifies_classifyLine line
  generalize classifyLine line = classified at h hclassifies ⊢
  cases hclassifies with
  | blockStart hcomment hkeyword => exact ⟨hcomment, _, hkeyword, fun _ => rfl⟩
  | blockElse hcomment hkeyword | blockEnd hcomment hkeyword => exact ⟨hcomment, _, hkeyword, nofun⟩
  | _ => simp at h

/-- A blank line, and one that goes on with a block or closes it, has no text to be evaluated. -/
theorem body_of_classifyLine_kind {line : List Char}
    (h : (classifyLine line).kind ∈ [.blank, .blockElse, .blockEnd]) :
  (classifyLine line).body = []
  := by
  have hclassifies := classifies_classifyLine line
  generalize classifyLine line = classified at h hclassifies ⊢
  cases hclassifies with
  | blank | blockElse | blockEnd => rfl
  | _ => simp at h

/-- The first terminal of a line that opens a block is its keyword, and the others are those of
its condition. -/
theorem exists_terminals_of_kind_blockStart {line : List Char}
    (hkind : (classifyLine line).kind = .blockStart) (htrimmed : Text.Trimmed line) :
  ∃ keyword, keyword.kind = .identifier
    ∧ terminals line = keyword :: terminals (classifyLine line).body
  := by
  have hmem : (classifyLine line).kind ∈ [.blockStart, .blockElse, .blockEnd] := by simp [hkind]
  obtain ⟨hcomment, stop, hkeyword, hbody⟩ := of_classifyLine_kind_keyword hmem
  rw [hkind] at hkeyword
  obtain ⟨c, others, rfl, hblank⟩ := htrimmed.starts
  have hsignificant := Lexeme.isSignificant_first hblank fun h => hcomment (isPrefixOf_slashes h)
  obtain ⟨tokens, htokens⟩ := exists_significantTokens_cons hsignificant
  obtain ⟨first, tail, hfirst, hidentifier, -⟩ := exists_of_leadingKeyword? hkeyword
  obtain ⟨rfl, -⟩ := List.cons.inj (htokens.symm.trans hfirst)
  obtain ⟨rest, htext, -⟩ := exists_first_append c others
  obtain ⟨hspelling, hstop⟩ := of_leadingKeyword? hsignificant hkeyword
  have hrest : (classifyLine (c :: others)).body = rest := by
    rw [hbody hkind, hstop, ← hspelling, htext, List.drop_left]
  rw [hrest]
  exact ⟨_, hidentifier, terminals_of_first_append htext⟩

/-- The terminals of the condition of a block are among those of its line. -/
theorem mem_terminals_of_kind_blockStart {line : List Char}
    (hkind : (classifyLine line).kind = .blockStart) (htrimmed : Text.Trimmed line)
    {t : Terminal} (h : t ∈ terminals (classifyLine line).body) :
  t ∈ terminals line
  := by
  obtain ⟨keyword, -, hterminals⟩ := exists_terminals_of_kind_blockStart hkind htrimmed
  rw [hterminals]
  exact List.mem_cons_of_mem _ h

/-- A line with two slashes and a trimmed text is a comment. -/
theorem classifyLine_comment {text : List Char} (h : Text.Trimmed text) :
  (classifyLine ('/' :: '/' :: ' ' :: text)).kind = .comment
    ∧ (classifyLine ('/' :: '/' :: ' ' :: text)).body = text
  := by
  have hmargin : ∀ c ∈ [' '], Text.isBlank c = true := List.forall_mem_singleton.mpr rfl
  have hbody : Text.trim (' ' :: text) = text := h.trim_append hmargin
  rw [classifyLine, if_neg (all_isBlank_cons (by decide) _),
    if_pos (isPrefixOf_slashes ⟨rfl, rfl⟩)]
  exact ⟨rfl, hbody⟩

/-- A line with the sign of a trigger declares one. -/
theorem classifyLine_trigger (text : List Char) :
  classifyLine ('@' :: text) = { kind := .trigger, text := '@' :: text, body := '@' :: text }
  := by
  have hat : "@".toList.isPrefixOf ('@' :: text) = true := rfl
  rw [classifyLine, if_neg (all_isBlank_cons (by decide) _),
    if_neg (not_isPrefixOf_slashes (by decide) _), if_pos hat]

end TriggerLang
