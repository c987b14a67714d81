import TriggerLang.Proofs.Lexing.Stability
import TriggerLang.Proofs.Text.Region

/-!
# Tokens in their text

The tokens of a text stand where their characters are: a token starts behind the characters
of the tokens before it, and its text comes next.  Only the last token can be counted to
reach beyond the text.
-/

namespace TriggerLang

/-- How far a token of this kind is counted to reach beyond a text that it ends: a symbol is
looked for in a window of two characters. -/
def TokenKind.overhang : TokenKind → Nat
  | .symbol s => 2 - s.spelling.length
  | _ => 0

namespace Lexeme

theorem stringBody_overhang (text : List Char) :
  (stringBody text).overhang = 0
  := by
  fun_induction stringBody text with
  | case1 => rfl
  | case2 => rfl
  | case3 c rest body ih => exact ih
  | case4 => rfl
  | case5 => rfl
  | case6 c rest _ _ _ _ body ih => exact ih

theorem number_overhang (text : List Char) :
  (number text).overhang = 0
  := by
  simp only [number]
  split
  · split <;> rfl
  · rfl

/-- Only the last character of a text is counted to reach beyond it. -/
theorem eq_nil_of_overhang {c : Char} {others : List Char}
    (h : (first c others).overhang ≠ 0) :
  others = []
  := by
  have hfirst := isFirst_first c others
  generalize first c others = lexeme at h hfirst
  cases hfirst with
  | string => exact absurd (stringBody_overhang others) h
  | number => exact absurd (number_overhang _) h
  | symbol =>
    cases others with
    | nil => rfl
    | cons d others => exact absurd rfl h
  | _ => exact absurd rfl h

/-- A lexeme that takes the whole text is counted to reach as far beyond it as its kind says. -/
theorem overhang_of_text_eq {c : Char} {others : List Char}
    (h : (first c others).text = c :: others) :
  (first c others).overhang = (first c others).kind.overhang
  := by
  have hfirst := isFirst_first c others
  generalize first c others = lexeme at h hfirst ⊢
  cases hfirst with
  | string =>
    change (stringBody others).overhang = (stringBody others).kind.overhang
    rw [stringBody_overhang, stringBody_kind]
    rfl
  | number =>
    rcases number_kind (c :: others) with hkind | hkind <;> rw [number_overhang, hkind] <;> rfl
  | @symbol s =>
    have hspelling : s.spelling = c :: others := h
    change (if others.isEmpty then 1 else 0) = 2 - s.spelling.length
    rw [hspelling]
    cases others <;> simp
  | _ => rfl

theorem eq_of_first_kind_string {c : Char} {others : List Char}
    (h : (first c others).kind = .string) :
  c = '"'
  := by
  have hfirst := isFirst_first c others
  generalize first c others = lexeme at h hfirst
  cases hfirst with
  | string hquote => exact hquote
  | number => rcases number_kind (c :: others) with hkind | hkind <;> simp [hkind] at h
  | _ => cases h

/-- A closed string ends with its quote. -/
theorem getLast?_stringBody {text : List Char} (h : (stringBody text).unterminated = false) :
  (stringBody text).text.getLast? = some '"'
  := by
  fun_induction stringBody text with
  | case1 => cases h
  | case2 => cases h
  | case3 c rest body ih =>
    change ('\\' :: c :: body.text).getLast? = _
    rw [List.getLast?_cons, List.getLast?_cons, ih h]
    rfl
  | case4 => rfl
  | case5 => cases h
  | case6 c rest _ _ _ _ body ih =>
    change (c :: body.text).getLast? = _
    rw [List.getLast?_cons, ih h]
    rfl

end Lexeme

section

variable {c : Char} {others rest : List Char}
  (htext : c :: others = (Lexeme.first c others).text ++ rest)

include htext

/-- What is counted to reach beyond the text is the last lexeme. -/
theorem eq_nil_of_first_overhang (h : (Lexeme.first c others).overhang ≠ 0) :
  rest = []
  := by
  obtain rfl := Lexeme.eq_nil_of_overhang h
  have hlength := congrArg List.length htext
  have hpos := List.length_pos_iff.mpr (Lexeme.first_text_ne_nil c [])
  rw [List.length_append, List.length_singleton] at hlength
  exact List.length_eq_zero_iff.mp (by omega)

/-- The token of the first lexeme is followed by those of the rest, which start behind its
text. -/
theorem place_of_first_append (start : Nat) (afterLineBreak : Bool) :
  Token.place start afterLineBreak (lexemes (c :: others))
    = Token.ofLexeme start afterLineBreak (Lexeme.first c others)
      :: Token.place (start + (Lexeme.first c others).text.length)
          (Token.breaksLine (Lexeme.first c others).kind afterLineBreak) (lexemes rest)
  := by
  rw [lexemes_of_first_append htext, Token.place]
  congr 1
  by_cases hoverhang : (Lexeme.first c others).overhang = 0
  · change Token.place (start + (_ + (Lexeme.first c others).overhang)) _ _ = _
    rw [hoverhang]
    rfl
  · rw [eq_nil_of_first_overhang htext hoverhang, lexemes]
    rfl

end

/-- A token is the first lexeme of the text from its start on. -/
theorem exists_first_of_mem_place {start : Nat} {afterLineBreak : Bool} {text : List Char}
    {token : Token} (h : token ∈ Token.place start afterLineBreak (lexemes text)) :
  ∃ before c others, text = before ++ c :: others ∧ token.start = start + before.length
    ∧ token = Token.ofLexeme token.start token.flags.afterLineBreak (Lexeme.first c others)
  := by
  induction text using lexemes_induction generalizing start afterLineBreak with
  | nil =>
    rw [lexemes] at h
    cases h
  | cons c others rest htext ih =>
    rw [place_of_first_append htext] at h
    rcases List.mem_cons.mp h with rfl | h
    · exact ⟨[], c, others, rfl, rfl, rfl⟩
    · obtain ⟨before, d, behind, hrest, hstart, htoken⟩ := ih h
      refine ⟨(Lexeme.first c others).text ++ before, d, behind, ?_, ?_, htoken⟩
      · rw [htext, hrest, List.append_assoc]
      · rw [hstart, List.length_append, Nat.add_assoc]

/-- The characters of a token are those of the text from its start on. -/
theorem exists_append_of_mem_place {start : Nat} {afterLineBreak : Bool} {text : List Char}
    {token : Token} (h : token ∈ Token.place start afterLineBreak (lexemes text)) :
  ∃ before after, text = before ++ token.text ++ after ∧ token.start = start + before.length
    ∧ (token.overhang ≠ 0 → after = [])
  := by
  obtain ⟨before, c, others, rfl, hstart, htoken⟩ := exists_first_of_mem_place h
  obtain ⟨after, htext, -⟩ := exists_first_append c others
  rw [htoken]
  refine ⟨before, after, ?_, hstart, eq_nil_of_first_overhang htext⟩
  rw [List.append_assoc]
  exact congrArg (before ++ ·) htext

/-- A token of a text stands behind the characters before it. -/
theorem exists_append_of_mem_properTokens {source : List Char} {token : Token}
    (h : token ∈ properTokens source) :
  ∃ before after, source = before ++ token.text ++ after ∧ token.start = before.length
    ∧ (token.overhang ≠ 0 → after = [])
  := by
  obtain ⟨before, after, hsource, hstart, hoverhang⟩ := exists_append_of_mem_place h
  exact ⟨before, after, hsource, by rw [hstart, Nat.zero_add], hoverhang⟩

/-- In a text without line breaks a token marks its characters. -/
theorem exists_region_eq_onLine {source : List Char} (h : Text.Unbroken source) {token : Token}
    (htoken : token ∈ properTokens source) :
  ∃ before after, source = before ++ token.text ++ after
    ∧ token.start = before.length
    ∧ token.region source = .onLine 1 Nat.one_pos before.length token.text.length
  := by
  obtain ⟨before, after, hsource, hstart, hoverhang⟩ := exists_append_of_mem_properTokens htoken
  refine ⟨before, after, hsource, hstart, ?_⟩
  rw [Token.region]
  subst hsource
  exact Text.Region.ofSpan_eq_onLine h hstart rfl hoverhang

/-- How far the end of a text is counted to lie behind it. -/
def overhang (source : List Char) : Nat :=
  ((properTokens source).getLast?.map (·.kind.overhang)).getD 0

/-- The last token reaches to the end of the text, and as far beyond it as its kind says. -/
theorem stop_of_getLast? {start : Nat} {afterLineBreak : Bool} {text : List Char} {token : Token}
    (h : (Token.place start afterLineBreak (lexemes text)).getLast? = some token) :
  token.stop = start + text.length + token.kind.overhang
  := by
  induction text using lexemes_induction generalizing start afterLineBreak with
  | nil =>
    rw [lexemes] at h
    cases h
  | cons c others rest htext ih =>
    have hlength := congrArg List.length htext
    rw [List.length_append] at hlength
    rw [place_of_first_append htext] at h
    cases rest with
    | nil =>
      rw [lexemes] at h
      cases h
      rw [List.append_nil] at htext
      have hoverhang := Lexeme.overhang_of_text_eq htext.symm
      change start + ((Lexeme.first c others).text.length + (Lexeme.first c others).overhang)
        = start + (c :: others).length + (Lexeme.first c others).kind.overhang
      rw [List.length_nil] at hlength
      omega
    | cons d rest =>
      rw [lexemes, Token.place, List.getLast?_cons_cons, ← Token.place, ← lexemes] at h
      have hstop := ih h
      omega

/-- The end of a text is the end of its characters, but for a last symbol of one character. -/
theorem endToken_start (source : List Char) :
  (endToken source).start = source.length + overhang source
  := by
  cases hlast : (properTokens source).getLast? with
  | some token =>
    have hstop := stop_of_getLast? hlast
    rw [Nat.zero_add] at hstop
    simpa [endToken, overhang, hlast] using hstop
  | none =>
    cases source with
    | nil => simp [endToken, overhang, hlast]
    | cons c others =>
      rw [List.getLast?_eq_none_iff, properTokens, lexemes, Token.place] at hlast
      cases hlast

/-- The end of a text without line breaks is behind its characters. -/
theorem endToken_region {source : List Char} (h : Text.Unbroken source) :
  (endToken source).region source = .onLine 1 Nat.one_pos source.length 0
  := Text.Region.ofSpan_end h ((Nat.le_add_right _ _).trans_eq (endToken_start source).symm)

/-- A name that a text holds is found. -/
theorem exists_findIdentifier? {source : List Char} {token : Token}
    (htoken : token ∈ properTokens source) (hkind : token.kind = .identifier) :
  ∃ found, findIdentifier? source token.word = some found
  := by
  have hsome : (findIdentifier? source token.word).isSome := by
    rw [findIdentifier?, List.find?_isSome]
    exact ⟨token, htoken, by simp [Token.isWord, hkind]⟩
  exact Option.isSome_iff_exists.mp hsome

/-- What is found of a name is an identifier of the text that is spelled like it. -/
theorem of_findIdentifier? {source : List Char} {name : String} {token : Token}
    (h : findIdentifier? source name = some token) :
  token ∈ properTokens source ∧ token.kind = .identifier ∧ token.word = name
  := by
  have hword := List.find?_some h
  rw [Token.isWord, Bool.and_eq_true, beq_iff_eq, beq_iff_eq] at hword
  exact ⟨List.mem_of_find?_eq_some h, hword.1, hword.2⟩

end TriggerLang
