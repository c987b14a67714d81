import TriggerLang.Proofs.Lexing.Break
import TriggerLang.Proofs.Lexing.Lossless
import TriggerLang.Proofs.Text.Position

/-!
# Tokens on their lines

Each kind of token has its own condition to stop at, and a line break is among them for all
kinds but one: in a string literal a backslash takes the next character along without a look at
it.  So a token keeps to the line that it starts on, unless it is a string literal with a
backslash at the end of the line, which goes on into the line break.
-/

namespace TriggerLang

open Text (Position)

/-- A token of a text keeps to its line. -/
structure Token.KeepsToLine (t : Token) (source : List Char) : Prop where
  /-- Only line breaks have the characters of line breaks. -/
  unbroken : t.kind ≠ .newline → Text.Unbroken t.text
  /-- The token ends at the latest where the rest of its line does. -/
  withinLine : t.kind ≠ .newline →
    t.text <+: (source.drop t.start).takeWhile fun c => !Text.isLineBreak c
  /-- The token is shown on a single line. -/
  isSingleLine : t.kind ≠ .newline → (t.region source).isSingleLine = true
  /-- All characters of the token stand on the line of the first one. -/
  line_eq : ∀ k < t.text.length,
    (Position.ofOffset source (t.start + k)).line = (Position.ofOffset source t.start).line

/-- The token is a string literal with a backslash right before a character of a line break. -/
def Token.EscapesLineBreak (t : Token) : Prop :=
  t.kind = .string ∧ ∃ c, Text.isLineBreak c = true ∧ ['\\', c] <:+: t.text

/-! ### Lexemes -/

namespace Lexeme

/-- A string literal has no line breaks but those that a backslash takes along. -/
theorem unbroken_stringBody {text : List Char}
    (h : ∀ c, Text.isLineBreak c = true → ¬ ['\\', c] <:+: (stringBody text).text) :
  Text.Unbroken (stringBody text).text
  := by
  obtain ⟨ps, ending, hscan⟩ := ScansString.exists_pieces text
  rw [hscan.stringBody_eq] at h ⊢
  refine Text.Unbroken.append ?_ ?_
  · intro d hd
    obtain ⟨p, hp, hd⟩ := List.mem_flatMap.mp hd
    cases p with
    | plain c =>
      rw [List.mem_singleton.mp hd]
      exact (hscan.stands _ hp).2.2
    | escaped c =>
      have hwithin : ['\\', c] <:+: ps.flatMap StringPiece.text ++ ending.text := by
        obtain ⟨before, after, rfl⟩ := List.append_of_mem hp
        exact ⟨before.flatMap StringPiece.text, after.flatMap StringPiece.text ++ ending.text,
          by simp [StringPiece.text]⟩
      rcases List.mem_pair.mp hd with rfl | rfl
      · rfl
      · exact Bool.eq_false_iff.mpr fun hbreak => h d hbreak hwithin
  · cases ending <;> exact Text.unbroken_of_all rfl

/-- A lexeme has no line breaks, unless it is one or a backslash takes one along. -/
theorem unbroken_first {c : Char} {others : List Char} (hkind : (first c others).kind ≠ .newline)
    (hescape : (first c others).kind = .string →
      ∀ d, Text.isLineBreak d = true → ¬ ['\\', d] <:+: (first c others).text) :
  Text.Unbroken (first c others).text
  := by
  have hfirst := isFirst_first c others
  generalize first c others = lexeme at hkind hescape hfirst ⊢
  cases hfirst with
  | newline => exact absurd rfl hkind
  | whitespace hspace =>
    intro d hd
    have hd : isSpace d = true := by
      rcases List.mem_cons.mp hd with rfl | hd
      · exact hspace
      · exact List.mem_takeWhile_imp hd
    exact Bool.eq_false_iff.mpr fun hbreak => by simp [isSpace_of_isLineBreak hbreak] at hd
  | comment hslashes =>
    intro d hd
    rcases List.mem_cons.mp hd with rfl | hd
    · rw [hslashes.1]
      rfl
    · simpa using List.mem_takeWhile_imp hd
  | string =>
    have hbody : Text.Unbroken (stringBody others).text := by
      apply unbroken_stringBody
      intro d hbreak hwithin
      exact hescape (stringBody_kind others) d hbreak (hwithin.trans (List.suffix_cons _ _).isInfix)
    have hquote : Text.Unbroken ['"'] := Text.unbroken_of_all rfl
    exact hquote.append hbody
  | number =>
    intro d hd
    rcases number_digits hd with hdigit | rfl
    · exact Text.isLineBreak_of_isWordPart (Text.isWordPart_of_isDigit hdigit)
    · rfl
  | identifier hword =>
    intro d hd
    apply Text.isLineBreak_of_isWordPart
    rcases List.mem_cons.mp hd with rfl | hd
    · exact Text.isWordPart_of_isWordStart hword
    · exact List.mem_takeWhile_imp hd
  | @symbol s => cases s <;> exact Text.unbroken_of_all rfl
  | skipped hc =>
    intro d hd
    rw [List.mem_singleton.mp hd]
    simp only [Bool.or_eq_false_iff, and_assoc] at hc
    exact hc.1

/-- A line break is one character that ends its line, or a pair that does. -/
theorem text_of_first_kind_newline {c : Char} {others : List Char}
    (h : (first c others).kind = .newline) :
  (first c others).text.length = 1 ∨ (first c others).text = ['\r', '\n']
  := by
  have hfirst := isFirst_first c others
  generalize first c others = lexeme at h hfirst ⊢
  cases hfirst with
  | newline =>
    dsimp only
    split
    · exact .inr rfl
    · exact .inl rfl
  | string => simp [stringBody_kind] at h
  | number => rcases number_kind (c :: others) with hkind | hkind <;> simp [hkind] at h
  | _ => cases h

end Lexeme

/-! ### Tokens -/

section

variable {source : List Char} {t : Token}

/-- A token without line breaks is shown on a single line. -/
theorem isSingleLine_region (ht : t ∈ properTokens source) (h : Text.Unbroken t.text) :
  (t.region source).isSingleLine = true
  := by
  obtain ⟨after, hdrop, hoverhang⟩ := exists_drop_start_eq ht
  have hlength : t.stop - t.start = t.text.length + t.overhang := Nat.add_sub_cancel_left _ _
  have hstop : (t.region source).stop
      = (t.region source).start.advance (t.text ++ after) (t.text.length + t.overhang) := by
    rw [← hdrop, ← hlength]
    rfl
  rw [Text.Region.isSingleLine, beq_iff_eq, hstop]
  by_cases hzero : t.overhang = 0
  · rw [hzero]
    exact (Position.advance_of_isPrefix h (List.prefix_append _ _) le_rfl _).1.symm
  · rw [hoverhang hzero, List.append_nil]
    exact (Position.advance_of_unbroken h _ _).1.symm

/-- The characters of a token stand on one line, also those of a line break. -/
theorem line_ofOffset_eq (ht : t ∈ properTokens source)
    (h : t.kind ≠ .newline → Text.Unbroken t.text) {k : Nat} (hk : k < t.text.length) :
  (Position.ofOffset source (t.start + k)).line = (Position.ofOffset source t.start).line
  := by
  obtain ⟨after, hdrop, -⟩ := exists_drop_start_eq ht
  rw [Position.ofOffset, Position.advance_add, hdrop, ← Position.ofOffset]
  by_cases hkind : t.kind = .newline
  · obtain ⟨c, others, hfirst, htext⟩ := exists_first_of_mem_properTokens ht
    rw [hfirst] at hkind
    rcases Lexeme.text_of_first_kind_newline hkind with hone | hpair
    · obtain rfl : k = 0 := by
        rw [htext] at hk
        omega
      rw [Position.advance]
    · rw [htext, hpair] at hk ⊢
      have hcases : k = 0 ∨ k = 1 := by
        rw [List.length_cons, List.length_singleton] at hk
        omega
      obtain rfl | rfl := hcases
      · rw [Position.advance]
      · -- the carriage return of a pair does not end the line
        rfl
  · exact (Position.advance_of_isPrefix (h hkind) (List.prefix_append _ _) hk.le _).1

/-- A token keeps to its line, unless it is a string literal with a backslash before a line
break. -/
theorem keepsToLine_iff (ht : t ∈ tokens source) :
  t.KeepsToLine source ↔ ¬ t.EscapesLineBreak
  := by
  constructor
  · rintro hkeeps ⟨hkind, c, hbreak, hwithin⟩
    have hunbroken := hkeeps.unbroken (by simp [hkind])
    have hc := hunbroken c (hwithin.subset (by simp))
    rw [hbreak] at hc
    cases hc
  · intro hescapes
    rcases mem_tokens_iff.mp ht with ht | rfl
    · have hunbroken : t.kind ≠ .newline → Text.Unbroken t.text := by
        obtain ⟨c, others, hkind, htext⟩ := exists_first_of_mem_properTokens ht
        rw [Token.EscapesLineBreak] at hescapes
        rw [hkind, htext] at hescapes ⊢
        exact fun hne => Lexeme.unbroken_first hne
          fun hstring d hbreak hwithin => hescapes ⟨hstring, d, hbreak, hwithin⟩
      constructor
      case unbroken => exact hunbroken
      case withinLine =>
        intro hne
        obtain ⟨after, hdrop, -⟩ := exists_drop_start_eq ht
        have hline : ∀ c ∈ t.text, (!Text.isLineBreak c) = true := by
          intro c hc
          simpa using hunbroken hne c hc
        rw [hdrop, List.takeWhile_append_of_pos hline]
        exact List.prefix_append _ _
      case isSingleLine => exact fun hne => isSingleLine_region ht (hunbroken hne)
      case line_eq => exact fun k hk => line_ofOffset_eq ht hunbroken hk
    · -- the end of a text has no characters
      constructor
      case unbroken => exact fun _ c hc => absurd hc List.not_mem_nil
      case withinLine => exact fun _ => List.nil_prefix
      case isSingleLine =>
        intro _
        have hlength : (endToken source).stop - (endToken source).start = 0 := Nat.sub_self _
        rw [Token.region, Text.Region.ofSpan, Text.Region.isSingleLine]
        change ((Position.ofOffset source (endToken source).start).line
          == ((Position.ofOffset source (endToken source).start).advance _
            ((endToken source).stop - (endToken source).start)).line) = true
        rw [hlength, Position.advance]
        exact beq_self_eq_true _
      case line_eq => exact fun k hk => absurd hk (Nat.not_lt_zero k)

end

/-- A string literal that goes on into the next line, and the comment behind it. -/
theorem keepsToLine_iff_escapedNewline :
  (∃ t ∈ tokens ['"', '\\', '\n', '"', '/', '/'], t.EscapesLineBreak
      ∧ ¬ t.KeepsToLine ['"', '\\', '\n', '"', '/', '/'])
    ∧ ∃ t ∈ tokens ['"', '\\', '\n', '"', '/', '/'], t.kind = .comment
      ∧ t.KeepsToLine ['"', '\\', '\n', '"', '/', '/']
  := by
  have hstring : ⟨.string, 0, ['"', '\\', '\n', '"'], ⟨false, true, true, false⟩, 0⟩
      ∈ tokens ['"', '\\', '\n', '"', '/', '/'] := by decide +kernel
  have hescapes : Token.EscapesLineBreak
      ⟨.string, 0, ['"', '\\', '\n', '"'], ⟨false, true, true, false⟩, 0⟩ :=
    ⟨rfl, '\n', rfl, ['"'], ['"'], rfl⟩
  have hcomment : ⟨.comment, 4, ['/', '/'], {}, 0⟩
      ∈ tokens ['"', '\\', '\n', '"', '/', '/'] := by decide +kernel
  have hkeeps : ¬ Token.EscapesLineBreak ⟨.comment, 4, ['/', '/'], {}, 0⟩ := fun h => nomatch h.1
  exact ⟨⟨_, hstring, hescapes, fun h => (keepsToLine_iff hstring).mp h hescapes⟩,
    _, hcomment, rfl, (keepsToLine_iff hcomment).mpr hkeeps⟩

/-- A backslash at the end of a line takes the line break into its string literal. -/
theorem not_keepsToLine_escapedNewline :
  ¬ ∀ t ∈ tokens ['"', '\\', '\n'], t.KeepsToLine ['"', '\\', '\n']
  := by
  intro h
  have hstring : ⟨.string, 0, ['"', '\\', '\n'], ⟨false, true, true, true⟩, 0⟩
      ∈ tokens ['"', '\\', '\n'] := by decide +kernel
  have hunbroken := (h _ hstring).unbroken (by decide)
  exact absurd (hunbroken '\n' (by decide)) (by decide)

end TriggerLang
