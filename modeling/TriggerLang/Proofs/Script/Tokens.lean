import TriggerLang.Proofs.Lexing.Place
import TriggerLang.Proofs.Script.Literals

/-!
# The tokens of a text with words replaced

Substitution replaces tokens and nothing else: the tokens of a text and those of the text
with words replaced correspond one by one.  Which words are replaced is told by the text
before them, so the tokens are followed together with that text.
-/

namespace TriggerLang

/-- A word character comes directly before the token. -/
def Token.followsWord (source : List Char) (token : Token) : Bool :=
  (source.take token.start).getLast?.any Text.isWordPart

/-- A closed string does not end with a word character. -/
theorem Lexeme.not_isWordPart_of_first_string {c : Char} {others rest : List Char}
    (hkind : (first c others).kind = .string)
    (htext : c :: others = (first c others).text ++ rest)
    (hrest : ∃ d ∈ rest.head?, Text.isWordStart d = true) :
  (first c others).text.getLast?.any Text.isWordPart = false
  := by
  obtain ⟨d, hd, hstart⟩ := hrest
  obtain rfl : c = '"' := eq_of_first_kind_string hkind
  rw [first_quote] at htext ⊢
  have hothers : others = (stringBody others).text ++ rest := (List.cons.inj htext).2
  cases hclosed : (stringBody others).unterminated with
  | false =>
    change ('"' :: (stringBody others).text).getLast?.any Text.isWordPart = false
    rw [List.getLast?_cons, getLast?_stringBody hclosed]
    decide
  | true =>
    -- an open string reaches to the end of its line, where no word starts
    rcases stringBody_append_of_unterminated hclosed with hend | ⟨e, u, hbreak, hend, -⟩
    · have hnil : rest = [] := List.append_right_eq_self.mp (hothers.symm.trans hend)
      rw [hnil] at hd
      cases hd
    · have hcons : rest = e :: u := List.append_cancel_left (hothers.symm.trans hend)
      rw [hcons] at hd
      cases hd
      rw [Text.isLineBreak_of_isWordPart (Text.isWordPart_of_isWordStart hstart)] at hbreak
      cases hbreak

namespace Substitution

/-- The text before a token tells whether its word is replaced. -/
theorem substituteAll_eq_map (literals : List (List Char × List Char)) {afterWord : Bool}
    {before text : List Char} (afterLineBreak : Bool)
    (hafter : (∃ d ∈ text.head?, Text.isWordStart d = true) →
      before.getLast?.any Text.isWordPart = afterWord) :
  substituteAll literals afterWord (terminals text)
    = (Token.place before.length afterLineBreak (lexemes text)).map fun token =>
        token.terminal.substituted literals (token.followsWord (before ++ text))
  := by
  induction text using lexemes_induction generalizing before afterWord afterLineBreak with
  | nil =>
    rw [terminals_nil, lexemes]
    rfl
  | cons c others rest htext ih =>
    have hsplit : before ++ c :: others = before ++ (Lexeme.first c others).text ++ rest := by
      rw [List.append_assoc, ← htext]
    have hfirst : (Lexeme.first c others).terminal.substituted literals afterWord
        = (Lexeme.first c others).terminal.substituted literals
            (before.getLast?.any Text.isWordPart) := by
      by_cases hkind : (Lexeme.first c others).kind = .identifier
      · rw [hafter ⟨c, rfl, Lexeme.isWordStart_of_first_kind hkind⟩]
      · rw [Terminal.substituted_of_ne hkind, Terminal.substituted_of_ne hkind]
    have hnext : (∃ d ∈ rest.head?, Text.isWordStart d = true) →
        (before ++ (Lexeme.first c others).text).getLast?.any Text.isWordPart
          = (Lexeme.first c others).terminal.endsWord := by
      intro hrest
      have hlast : (before ++ (Lexeme.first c others).text).getLast?
          = (Lexeme.first c others).text.getLast? := by
        rw [List.getLast?_append_of_ne_nil _ (Lexeme.first_text_ne_nil c others)]
      rw [hlast]
      by_cases hkind : (Lexeme.first c others).kind = .string
      · rw [Terminal.endsWord_string hkind,
          Lexeme.not_isWordPart_of_first_string hkind htext hrest]
      · rw [Terminal.endsWord_of_ne_string hkind]
        rfl
    have ih := ih (Token.breaksLine (Lexeme.first c others).kind afterLineBreak) hnext
    rw [terminals_of_first_append htext, substituteAll, place_of_first_append htext, List.map_cons,
      hfirst, ih, List.length_append, hsplit]
    congr 1
    change _ = (Lexeme.first c others).terminal.substituted literals
      (((before ++ (Lexeme.first c others).text ++ rest).take before.length).getLast?.any
        Text.isWordPart)
    rw [List.append_assoc, List.take_left]

/-- What becomes of a token of a text when the words of `substitutions` are replaced. -/
inductive Becomes (substitutions : List Substitution) (source : List Char) (token : Token) :
    Token → Prop
  /-- A bare word becomes one closed string, which stands for what the first substitution of
  the word says. -/
  | literal {out : Token} {value : String} (isWord : token.kind = .identifier)
      (isBare : token.followsWord source = false)
      (isReplaced : replacement? substitutions token.word = some value)
      (kind_eq : out.kind = .string) (isClosed : out.flags.unterminated = false)
      (unquote_eq : unquote out.text = value.toList) :
      Becomes substitutions source token out
  /-- Any other token stays, and only the text of a comment can change. -/
  | kept {out : Token}
      (isKept : token.kind = .identifier → token.followsWord source = false →
        replacement? substitutions token.word = none)
      (kind_eq : out.kind = token.kind)
      (terminal_eq : token.kind ≠ .comment → out.terminal = token.terminal) :
      Becomes substitutions source token out

/-- A token becomes what its terminal is replaced by. -/
theorem becomes_of_silenced {substitutions : List Substitution}
    (hname : ∀ s ∈ substitutions, Text.IsName s.matchToken.toList) {source : List Char}
    {token out : Token}
    (h : (token.terminal.substituted (literals substitutions)
      (token.followsWord source)).silenced = out.terminal.silenced) :
  Becomes substitutions source token out
  := by
  have hlookup := lookup_literals_of_isName hname token.word
  rw [Token.word, String.toList_ofList] at hlookup
  by_cases hreplaced : token.kind = .identifier ∧ token.followsWord source = false
      ∧ (replacement? substitutions token.word).isSome
  · obtain ⟨hword, hbare, hsome⟩ := hreplaced
    obtain ⟨value, hvalue⟩ := Option.isSome_iff_exists.mp hsome
    rw [Token.word] at hvalue
    rw [hvalue] at hlookup
    rw [hbare, Terminal.substituted_of_lookup_some hword hlookup] at h
    have hout := (Terminal.of_silenced_eq h).2 (by simp)
    apply Becomes.literal hword hbare hvalue
    · exact (congrArg Terminal.kind hout).symm
    · exact (congrArg Terminal.unterminated hout).symm
    · rw [← Token.terminal_text, ← hout]
      exact unquote_quote value.toList
  · have hself : token.terminal.substituted (literals substitutions) (token.followsWord source)
        = token.terminal := by
      by_cases hword : token.kind = .identifier
      · cases hbare : token.followsWord source with
        | true => simp [Terminal.substituted]
        | false =>
          have hnone : replacement? substitutions token.word = none := by
            simpa [hword, hbare] using hreplaced
          rw [Token.word] at hnone
          rw [hnone] at hlookup
          exact Terminal.substituted_of_lookup_none hlookup false
      · exact Terminal.substituted_of_ne hword
    rw [hself] at h
    obtain ⟨hkind, hterminal⟩ := Terminal.of_silenced_eq h
    apply Becomes.kept
    · intro hword hbare
      simpa [hword, hbare] using hreplaced
    · exact hkind.symm
    · exact fun hne => (hterminal hne).symm

/-- Replacing words replaces the tokens of bare words by strings and keeps all others. -/
theorem tokens_applyAll {substitutions : List Substitution}
    (hname : ∀ s ∈ substitutions, Text.IsName s.matchToken.toList) (source : List Char) :
  List.Forall₂ (Becomes substitutions source) (tokens source)
    (tokens (applyAll substitutions source))
  := by
  have hsilenced := terminals_applyAll (areBareWords_literals hname) source
  have hbefore := @substituteAll_eq_map (literals substitutions) false [] source false
    fun _ => rfl
  rw [hbefore, terminals, ← Token.map_terminal_place 0 false, List.map_map, List.map_map,
    ← List.forall₂_eq_eq_eq, List.forall₂_map_left_iff, List.forall₂_map_right_iff] at hsilenced
  have hproper : List.Forall₂ (Becomes substitutions source) (properTokens source)
      (properTokens (applyAll substitutions source)) :=
    hsilenced.flip.imp fun token out h => becomes_of_silenced hname h.symm
  have hend : Becomes substitutions source (endToken source)
      (endToken (applyAll substitutions source)) := .kept (by rintro ⟨⟩) rfl fun _ => rfl
  exact List.rel_append hproper (.cons hend .nil)

/-- Of two substitutions of one word the first one counts, and the digit before a word keeps
it. -/
theorem tokens_applyAll_knights :
  (∀ s ∈ [⟨"Knight", "Knight \"Unit\""⟩, ⟨"Knight", "Horse"⟩],
      Text.IsName (matchToken s).toList)
    ∧ List.Forall₂
        (Becomes [⟨"Knight", "Knight \"Unit\""⟩, ⟨"Knight", "Horse"⟩]
          "Knight + 1Knight // Knight\n\"Knight".toList)
        (tokens "Knight + 1Knight // Knight\n\"Knight".toList)
        (tokens (applyAll [⟨"Knight", "Knight \"Unit\""⟩, ⟨"Knight", "Horse"⟩]
          "Knight + 1Knight // Knight\n\"Knight".toList))
  := by
  have hname : ∀ s ∈ [⟨"Knight", "Knight \"Unit\""⟩, ⟨"Knight", "Horse"⟩],
      Text.IsName (matchToken s).toList := by
    intro s hs
    have hword : s.matchToken = "Knight" := by
      rcases List.mem_cons.mp hs with rfl | hs
      · rfl
      · exact congrArg matchToken (List.mem_singleton.mp hs)
    rw [hword]
    exact ⟨'K', "night".toList, rfl, by decide, List.all_eq_true.mp (by decide)⟩
  exact ⟨hname, tokens_applyAll hname _⟩

end Substitution

end TriggerLang
