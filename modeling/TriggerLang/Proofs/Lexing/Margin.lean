import TriggerLang.Proofs.Lexing.Seam

/-!
# Texts without their margins

The white space that a text is trimmed of is of any script, while the lexer knows spaces and tabs
only and takes any other white space for characters to be skipped.  A text without skipped
characters and strings that are left open has no other white space at its ends, unless it ends
with a comment, and so it means the same when it is trimmed.
-/

namespace TriggerLang

/-! ### Characters of lexemes -/

namespace Text

theorem isBlank_of_isSpace {c : Char} (h : Lexeme.isSpace c = true) :
  isBlank c = true
  := by
  rw [Lexeme.isSpace, Bool.or_eq_true, beq_iff_eq, beq_iff_eq] at h
  rcases h with rfl | rfl <;> rfl

theorem isBlank_of_isDigit {c : Char} (h : isDigit c = true) :
  isBlank c = false
  := isBlank_of_isWordPart (isWordPart_of_isDigit h)

end Text

namespace Symbol

theorem isBlank_of_mem_spelling {s : Symbol} {c : Char} (h : c ∈ s.spelling) :
  Text.isBlank c = false
  := by
  have hall : (all.all fun s => s.spelling.all fun c => !Text.isBlank c) = true := by decide
  have hs := List.all_eq_true.mp hall s (mem_all s)
  simpa using List.all_eq_true.mp hs c h

end Symbol

theorem TokenKind.eq_of_isSignificant_eq_false {kind : TokenKind}
    (h : kind.isSignificant = false) :
  kind = .whitespace ∨ kind = .newline ∨ kind = .comment
  := by
  cases kind <;> simp_all [isSignificant]

namespace Lexeme

/-- White space that is neither a space nor a line break is skipped. -/
theorem first_kind_of_isBlank {c : Char} (hblank : Text.isBlank c = true)
    (hspace : isSpace c = false) (hbreak : Text.isLineBreak c = false) (others : List Char) :
  (first c others).kind = .skipped
  := by
  have hfirst := isFirst_first c others
  generalize first c others = lexeme at hfirst
  cases hfirst with
  | newline h => simp [hbreak] at h
  | whitespace h => simp [hspace] at h
  | comment h =>
    rw [h.1] at hblank
    cases hblank
  | string h =>
    rw [h] at hblank
    cases hblank
  | number h => simp [Text.isBlank_of_isDigit h] at hblank
  | identifier h =>
    simp [Text.isBlank_of_isWordPart (Text.isWordPart_of_isWordStart h)] at hblank
  | @symbol s _ hs =>
    have hprefix : s.spelling <+: c :: others :=
      List.isPrefixOf_iff_prefix.mp (by simpa using List.find?_some hs)
    obtain ⟨d, inside, hspelling⟩ := List.exists_cons_of_ne_nil s.spelling_ne_nil
    rw [hspelling, List.cons_prefix_cons] at hprefix
    have hc : c ∈ s.spelling := by simp [hspelling, hprefix.1]
    simp [Symbol.isBlank_of_mem_spelling hc] at hblank
  | skipped => rfl

end Lexeme

/-- A terminal that means something, and is neither skipped nor left open, does not end with
white space. -/
theorem isBlank_of_getLast? {source : List Char} {t : Terminal} (h : t ∈ terminals source)
    (hsignificant : t.isSignificant = true) (hwhole : t.IsWhole) {c : Char}
    (hc : c ∈ t.text.getLast?) :
  Text.isBlank c = false
  := by
  obtain ⟨d, others, rfl⟩ := exists_first_of_mem_terminals h
  have hmem : c ∈ (Lexeme.first d others).text := List.mem_of_getLast? hc
  obtain ⟨hskipped, hclosed⟩ := hwhole
  change (Lexeme.first d others).kind.isSignificant = true at hsignificant
  change (Lexeme.first d others).kind ≠ .skipped at hskipped
  change (Lexeme.first d others).kind = .string →
    (Lexeme.first d others).unterminated = false at hclosed
  change c ∈ (Lexeme.first d others).text.getLast? at hc
  have hfirst := Lexeme.isFirst_first d others
  generalize Lexeme.first d others = lexeme at *
  cases hfirst with
  | newline | whitespace | comment => cases hsignificant
  | string =>
    have hlast := Lexeme.getLast?_stringBody (hclosed (Lexeme.stringBody_kind others))
    simp only [List.getLast?_cons, hlast, Option.getD_some, Option.mem_def, Option.some_inj] at hc
    rw [← hc]
    rfl
  | number =>
    rcases Lexeme.number_digits hmem with hdigit | rfl
    · exact Text.isBlank_of_isDigit hdigit
    · rfl
  | identifier hword =>
    apply Text.isBlank_of_isWordPart
    rcases List.mem_cons.mp hmem with rfl | hmem
    · exact Text.isWordPart_of_isWordStart hword
    · exact List.mem_takeWhile_imp hmem
  | symbol => exact Symbol.isBlank_of_mem_spelling hmem
  | skipped => exact absurd rfl hskipped

/-! ### Margins -/

namespace Text

/-- Only the text behind a character that is no white space is trimmed at its end. -/
theorem trimEnd_append_cons {c : Char} (h : isBlank c = false) (before line : List Char) :
  trimEnd (before ++ c :: line) = before ++ c :: trimEnd line
  := by
  simp only [trimEnd_eq]
  induction line using List.reverseRecOn with
  | nil => rw [List.rdropWhile_concat_neg _ _ _ (by simp [h]), List.rdropWhile_nil]
  | append_singleton line d ih =>
    rw [← List.cons_append, ← List.append_assoc]
    by_cases hd : isBlank d = true
    · rw [List.rdropWhile_concat_pos _ _ _ hd, List.rdropWhile_concat_pos _ _ _ hd, ih]
    · rw [List.rdropWhile_concat_neg _ _ _ hd, List.rdropWhile_concat_neg _ _ _ hd]
      simp

/-- White space at the end of a text is trimmed off. -/
theorem trimEnd_append {margin : List Char} (h : ∀ c ∈ margin, isBlank c = true)
    (text : List Char) :
  trimEnd (text ++ margin) = trimEnd text
  := by
  have hreverse : ∀ c ∈ margin.reverse, isBlank c = true :=
    fun c hc => h c (List.mem_reverse.mp hc)
  rw [trimEnd, List.reverse_append, List.dropWhile_append_of_pos hreverse, trimEnd]

end Text

variable {source : List Char}

/-- A text that means whole terminals only means the same without the white space it starts
with. -/
theorem meaning_trimStart (hunbroken : Text.Unbroken source)
    (hwhole : ∀ t ∈ meaning [] source, t.IsWhole) :
  meaning [] (Text.trimStart source) = meaning [] source
  := by
  rw [← meaning_dropWhile_isSpace source] at hwhole ⊢
  have hdrop : Text.trimStart source = Text.trimStart (source.dropWhile Lexeme.isSpace) := by
    conv_lhs => rw [← List.takeWhile_append_dropWhile (p := Lexeme.isSpace) (l := source)]
    exact List.dropWhile_append_of_pos fun c hc =>
      Text.isBlank_of_isSpace (List.mem_takeWhile_imp hc)
  have hhead := List.head?_dropWhile_not Lexeme.isSpace source
  have hrest : Text.Unbroken (source.dropWhile Lexeme.isSpace) :=
    fun c hc => hunbroken c ((List.dropWhile_sublist _).mem hc)
  rw [hdrop]
  generalize source.dropWhile Lexeme.isSpace = rest at hwhole hhead hrest ⊢
  cases rest with
  | nil => rfl
  | cons c rest =>
    have hblank : Text.isBlank c = false := by
      by_contra hblank
      rw [Bool.not_eq_false] at hblank
      have hskipped := Lexeme.first_kind_of_isBlank hblank (by simpa using hhead)
        hrest.of_cons.1 rest
      have hsignificant : (Lexeme.first c rest).terminal.isSignificant = true := by
        rw [Terminal.isSignificant, Lexeme.terminal, hskipped]
        rfl
      obtain ⟨us, hus⟩ := exists_meaning_eq_cons rfl hsignificant
      exact (hwhole _ (hus ▸ List.mem_cons_self)).1 hskipped
    rw [Text.trimStart, List.dropWhile_cons_of_neg (by simp [hblank])]

/-- Terminals of a text that are whole, or mean nothing, mean the same without the white space
they end with. -/
theorem meaning_trimEnd_flatMap (hunbroken : Text.Unbroken source) {ts after : List Terminal}
    (hterminals : terminals source = ts ++ after)
    (hwhole : ∀ t ∈ ts, t.isSignificant = true → t.IsWhole) :
  meaning [] (Text.trimEnd (ts.flatMap Terminal.text)) = ts.filter Terminal.isSignificant
  := by
  induction ts using List.reverseRecOn generalizing after with
  | nil =>
    change meaning [] [] = _
    rw [meaning_nil_eq_filter, terminals_nil]
  | append_singleton ts t ih =>
    have hmem : t ∈ terminals source := by simp [hterminals]
    have hbefore := @ih (t :: after) (by simp [hterminals])
      fun u hu => hwhole u (List.mem_append_left _ hu)
    rw [List.flatMap_append, List.flatMap_singleton, List.filter_append]
    by_cases hsignificant : t.isSignificant = true
    · have hclosed : ∀ u ∈ ts ++ [t], u.IsClosed := by
        intro u hu hkind
        refine (hwhole u hu ?_).2 hkind
        rw [Terminal.isSignificant, hkind]
        rfl
      obtain ⟨text, c, htext⟩ : ∃ text c, t.text = text ++ [c] := by
        rcases List.eq_nil_or_concat t.text with hnil | ⟨text, c, htext⟩
        · exact absurd hnil (text_ne_nil_of_mem_terminals hmem)
        · exact ⟨text, c, htext.trans List.concat_eq_append⟩
      have hblank : Text.isBlank c = false :=
        isBlank_of_getLast? hmem hsignificant (hwhole t (by simp) hsignificant) (by simp [htext])
      have hmeaning := meaning_flatMap_text hunbroken hterminals hclosed
      rw [List.flatMap_append, List.flatMap_singleton, List.filter_append] at hmeaning
      rw [htext, ← List.append_assoc, Text.trimEnd_append_cons hblank]
      rw [htext, ← List.append_assoc] at hmeaning
      exact hmeaning
    · have hfilter : [t].filter Terminal.isSignificant = [] := by simp [hsignificant]
      rw [hfilter, List.append_nil]
      rcases TokenKind.eq_of_isSignificant_eq_false (Bool.eq_false_iff.mpr hsignificant)
        with hkind | hkind | hkind
      · -- white space is trimmed off
        have hspaces := isSpace_of_mem_whitespace hmem hkind
        rw [Text.trimEnd_append fun c hc => Text.isBlank_of_isSpace (hspaces c hc)]
        exact hbefore
      · exact absurd hkind (kind_ne_newline_of_mem_terminals hunbroken hmem)
      · -- a comment is trimmed, but keeps its slashes
        obtain ⟨line, hline, htext⟩ := exists_text_of_mem_comment hmem hkind
        have hrest : Text.Unbroken (Text.trimEnd line) :=
          fun c hc => hline c ((List.rdropWhile_prefix Text.isBlank line).mem hc)
        have hcomment := @Terminal.terminals_comment (Text.trimEnd line) [] hrest
          fun c hc => absurd hc (Option.not_mem_none c)
        have hexchange := terminals_exchange_of_head hunbroken
          (show terminals source = ts ++ t :: after by simp [hterminals]) htext rfl (by decide)
          ('/' :: Text.trimEnd line)
        rw [List.append_nil, terminals_nil] at hcomment
        rw [htext, Text.trimEnd_append_cons rfl, ← List.nil_append ('/' :: line),
          Text.trimEnd_append_cons rfl, List.nil_append, meaning_nil_eq_filter, hexchange, hcomment,
          List.filter_append, List.filter_cons_of_neg Bool.false_ne_true, List.filter_nil,
          List.append_nil]

/-- A text that means whole terminals only means the same when it is trimmed. -/
theorem meaning_trim (hunbroken : Text.Unbroken source)
    (hwhole : ∀ t ∈ meaning [] source, t.IsWhole) :
  meaning [] (Text.trim source) = meaning [] source
  := by
  have hstart := meaning_trimStart hunbroken hwhole
  have hrest : Text.Unbroken (Text.trimStart source) :=
    fun c hc => hunbroken c ((List.dropWhile_sublist _).mem hc)
  rw [← hstart, meaning_nil_eq_filter] at hwhole
  have hend := meaning_trimEnd_flatMap hrest (List.append_nil _).symm
    fun t ht hsignificant => hwhole t (List.mem_filter.mpr ⟨ht, hsignificant⟩)
  rw [flatMap_text_terminals, ← meaning_nil_eq_filter] at hend
  exact hend.trans hstart

end TriggerLang
