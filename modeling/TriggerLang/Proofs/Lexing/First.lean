import Mathlib.Data.List.Induction
import Mathlib.Tactic.Common
import TriggerLang.Proofs.Lexing.Pieces
import TriggerLang.Proofs.Lexing.Terminal

/-!
# The first terminal of a text

What the first terminal of a text is depends on the text only as far as the characters that
may continue it.  So each kind of terminal is read back from its own text if what follows
does not go on with it, and the terminals of the whole text are that one and those of the
rest.
-/

namespace List

variable {α : Type}

/-- What is taken of a list ends with the elements that satisfy a predicate, if the next one
does not. -/
theorem takeWhile_append_of_head {p : α → Bool} {xs rest : List α} (hxs : ∀ x ∈ xs, p x = true)
    (hrest : ∀ x ∈ rest.head?, p x = false) :
  (xs ++ rest).takeWhile p = xs
  := by
  rw [takeWhile_append_of_pos hxs]
  cases rest with
  | nil => simp
  | cons x rest => simp [hrest x rfl]

theorem dropWhile_append_of_head {p : α → Bool} {xs rest : List α} (hxs : ∀ x ∈ xs, p x = true)
    (hrest : ∀ x ∈ rest.head?, p x = false) :
  (xs ++ rest).dropWhile p = rest
  := by
  rw [dropWhile_append_of_pos hxs]
  cases rest with
  | nil => rfl
  | cons x rest => simp [hrest x rfl]

end List

namespace TriggerLang

/-- Whatever follows the symbol, it is not made another symbol or a comment. -/
def Symbol.standsAlone : Symbol → Bool
  | .equal | .less | .greater | .bang | .slash => false
  | _ => true

namespace Text

theorem ne_of_isWordStart {c d : Char} (h : isWordStart c = true) (hd : isWordStart d = false) :
  c ≠ d
  := by
  rintro rfl
  simp [hd] at h

theorem ne_of_isDigit {c d : Char} (h : isDigit c = true) (hd : isDigit d = false) :
  c ≠ d
  := by
  rintro rfl
  simp [hd] at h

theorem isLineBreak_of_isWordPart {c : Char} (h : isWordPart c = true) :
  isLineBreak c = false
  := by
  rw [Bool.eq_false_iff]
  intro hbreak
  rw [isLineBreak, Bool.or_eq_true, beq_iff_eq, beq_iff_eq] at hbreak
  rcases hbreak with rfl | rfl <;> exact absurd h (by decide)

/-- No digit starts a word. -/
theorem isWordStart_of_isDigit {c : Char} (h : isDigit c = true) :
  isWordStart c = false
  := by
  have hc : 48 ≤ c.toNat ∧ c.toNat ≤ 57 := by
    rw [isDigit, Bool.and_eq_true, decide_eq_true_eq, decide_eq_true_eq] at h
    exact h
  have hletter : isLetter c = false := by
    rw [isLetter_of_ascii (by omega), Bool.eq_false_iff, ne_eq]
    delta Char.isAlpha Char.isUpper Char.isLower
    rw [Bool.or_eq_true]
    intro hletter
    have hval : c.val.toNat = c.toNat := rfl
    simp only [ge_iff_le, UInt32.le_iff_toNat_le, Bool.and_eq_true, decide_eq_true_eq] at hletter
    simp at hletter
    omega
  simp only [isWordStart, hletter, Bool.false_or, beq_eq_false_iff_ne]
  exact ne_of_isDigit h (by decide)

end Text

namespace Lexeme

theorem first_of_isWordStart {c : Char} (h : Text.isWordStart c = true) (rest : List Char) :
  first c rest = { kind := .identifier, text := c :: rest.takeWhile Text.isWordPart }
  := by
  have hdigit : Text.isDigit c = false := by
    by_contra hdigit
    simp [Text.isWordStart_of_isDigit (Bool.not_eq_false _ ▸ hdigit)] at h
  have hne := fun d hd => Text.ne_of_isWordStart (d := d) h hd
  simp [first, Text.isLineBreak, isSpace, h, hdigit, hne '\n' (by decide), hne '\r' (by decide),
    hne ' ' (by decide), hne '\t' (by decide), hne '/' (by decide), hne '"' (by decide)]

theorem first_of_isDigit {c : Char} (h : Text.isDigit c = true) (rest : List Char) :
  first c rest = number (c :: rest)
  := by
  have hne := fun d hd => Text.ne_of_isDigit (d := d) h hd
  simp [first, Text.isLineBreak, isSpace, h, hne '\n' (by decide), hne '\r' (by decide),
    hne ' ' (by decide), hne '\t' (by decide), hne '/' (by decide), hne '"' (by decide)]

theorem first_of_isSpace {c : Char} (h : isSpace c = true) (rest : List Char) :
  first c rest = { kind := .whitespace, text := c :: rest.takeWhile isSpace }
  := by
  have hbreak : Text.isLineBreak c = false := by
    rw [isSpace, Bool.or_eq_true, beq_iff_eq, beq_iff_eq] at h
    rcases h with rfl | rfl <;> rfl
  simp [first, hbreak, h]

theorem isWordPart_of_isSpace {c : Char} (h : isSpace c = true) :
  Text.isWordPart c = false
  := by
  rw [isSpace, Bool.or_eq_true, beq_iff_eq, beq_iff_eq] at h
  rcases h with rfl | rfl <;> rfl

theorem first_quote (rest : List Char) :
  first '"' rest = { stringBody rest with text := '"' :: (stringBody rest).text }
  := by
  simp [first, Text.isLineBreak, isSpace]

/-- A character that starts nothing else starts a symbol, or is skipped. -/
theorem first_of_leading? {c : Char} {rest : List Char} {s : Symbol}
    (hc : (Text.isLineBreak c || isSpace c || c == '"' || Text.isDigit c || Text.isWordStart c)
      = false)
    (hcomment : ¬ (c = '/' ∧ rest.head? = some '/'))
    (hs : Symbol.leading? (c :: rest) = some s) :
  (first c rest).terminal = .ofSymbol s
  := by
  simp only [Bool.or_eq_false_iff, beq_eq_false_iff_ne, and_assoc] at hc
  obtain ⟨hbreak, hspace, hquote, hdigit, hword⟩ := hc
  simp only [first, hbreak, hspace, hcomment, hquote, hdigit, hword, hs]
  rfl

/-- A character that starts no symbol either is skipped. -/
theorem first_of_leading?_eq_none {c : Char} {rest : List Char}
    (hc : (Text.isLineBreak c || isSpace c || c == '"' || Text.isDigit c || Text.isWordStart c)
      = false)
    (hs : Symbol.leading? (c :: rest) = none) :
  first c rest = { kind := .skipped, text := [c] }
  := by
  have hslash : c ≠ '/' := by
    rintro rfl
    exact List.find?_eq_none.mp hs .slash (Symbol.mem_all _) rfl
  simp only [Bool.or_eq_false_iff, beq_eq_false_iff_ne, and_assoc] at hc
  obtain ⟨hbreak, hspace, hquote, hdigit, hword⟩ := hc
  simp [first, hbreak, hspace, hslash, hquote, hdigit, hword, hs]

theorem stringBody_prefix (text : List Char) :
  (stringBody text).text <+: text
  := by
  fun_induction stringBody text with
  | case1 => exact List.prefix_rfl
  | case2 => exact List.prefix_rfl
  | case3 c rest body ih => simpa using ih
  | case4 => simp
  | case5 => simp
  | case6 c rest _ _ _ _ body ih => simpa using ih

theorem number_prefix (text : List Char) :
  (number text).text <+: text
  := by
  have hwhole := List.takeWhile_append_dropWhile (p := Text.isDigit) (l := text)
  simp only [number]
  split
  · rename_i d rest hdrop
    rw [hdrop] at hwhole
    split
    · have hfraction : text.takeWhile Text.isDigit ++ '.' :: d :: rest.takeWhile Text.isDigit
          <+: text.takeWhile Text.isDigit ++ '.' :: d :: rest := by
        simpa using List.takeWhile_prefix Text.isDigit
      rwa [hwhole] at hfraction
    · exact List.takeWhile_prefix Text.isDigit
  · exact List.takeWhile_prefix Text.isDigit

/-- What the first lexeme of a text can be, by the character that the text starts with. -/
inductive IsFirst (c : Char) (rest : List Char) : Lexeme → Prop
  | newline (hbreak : Text.isLineBreak c = true) :
      IsFirst c rest
        { kind := .newline
          text := if c = '\r' ∧ rest.head? = some '\n' then ['\r', '\n'] else [c] }
  | whitespace (hspace : isSpace c = true) :
      IsFirst c rest { kind := .whitespace, text := c :: rest.takeWhile isSpace }
  | comment (hslashes : c = '/' ∧ rest.head? = some '/') :
      IsFirst c rest
        { kind := .comment, text := c :: rest.takeWhile fun c => !Text.isLineBreak c }
  | string (hquote : c = '"') :
      IsFirst c rest { stringBody rest with text := '"' :: (stringBody rest).text }
  | number (hdigit : Text.isDigit c = true) :
      IsFirst c rest (number (c :: rest))
  | identifier (hword : Text.isWordStart c = true) :
      IsFirst c rest { kind := .identifier, text := c :: rest.takeWhile Text.isWordPart }
  | symbol {s : Symbol} (hword : Text.isWordStart c = false)
      (hs : Symbol.leading? (c :: rest) = some s) :
      IsFirst c rest
        { kind := .symbol s, text := s.spelling, overhang := if rest.isEmpty then 1 else 0 }
  | skipped
      (hc : (Text.isLineBreak c || isSpace c || c == '"' || Text.isDigit c || Text.isWordStart c)
        = false)
      (hs : Symbol.leading? (c :: rest) = none) :
      IsFirst c rest { kind := .skipped, text := [c] }

theorem isFirst_first (c : Char) (rest : List Char) :
  IsFirst c rest (first c rest)
  := by
  unfold first
  split
  · exact .newline ‹_›
  split
  · exact .whitespace ‹_›
  split
  · exact .comment ‹_›
  split
  · exact .string ‹_›
  split
  · exact .number ‹_›
  split
  · exact .identifier ‹_›
  · rename_i hword
    have hword := Bool.eq_false_iff.mpr hword
    split
    · exact .symbol hword ‹_›
    · exact .skipped (by simp_all) ‹_›

/-- A text starts with its first lexeme. -/
theorem first_prefix (c : Char) (rest : List Char) :
  (first c rest).text <+: c :: rest
  := by
  have hfirst := isFirst_first c rest
  generalize first c rest = lexeme at hfirst
  cases hfirst with
  | newline =>
    dsimp only
    split
    · rename_i h
      obtain ⟨others, hothers⟩ := List.head?_eq_some_iff.mp h.2
      rw [h.1, hothers]
      simp
    · simp
  | whitespace => simpa using List.takeWhile_prefix isSpace
  | comment => simpa using List.takeWhile_prefix _
  | string hquote =>
    rw [hquote]
    simpa using stringBody_prefix rest
  | number => exact number_prefix _
  | identifier => simpa using List.takeWhile_prefix Text.isWordPart
  | symbol _ hs => exact List.isPrefixOf_iff_prefix.mp (by simpa using List.find?_some hs)
  | skipped => simp

end Lexeme

/-- The first terminal of a text. -/
def firstTerminal? : List Char → Option Terminal
  | [] => none
  | c :: rest => some (Lexeme.first c rest).terminal

/-- A terminal that its text starts with is followed by the terminals of what follows its
text. -/
theorem terminals_append {t : Terminal} {rest : List Char}
    (h : firstTerminal? (t.text ++ rest) = some t) :
  terminals (t.text ++ rest) = t :: terminals rest
  := by
  cases htext : t.text ++ rest with
  | nil =>
    rw [htext] at h
    cases h
  | cons c others =>
    rw [htext, firstTerminal?, Option.some_inj] at h
    have hlength : (Lexeme.first c others).text = t.text := by rw [← h]; rfl
    rw [terminals, lexemes, List.map_cons, h, hlength, ← htext, List.drop_left]
    rfl

/-- The text is a word that an identifier can be. -/
def Text.IsName (w : List Char) : Prop :=
  ∃ c rest, w = c :: rest ∧ isWordStart c = true ∧ ∀ d ∈ rest, isWordPart d = true

theorem Text.IsName.ne_nil {w : List Char} (h : IsName w) :
  w ≠ []
  := by
  obtain ⟨c, rest, rfl, -⟩ := h
  exact List.cons_ne_nil c rest

theorem Text.IsName.isWordPart {w : List Char} (h : IsName w) :
  ∀ c ∈ w, Text.isWordPart c = true
  := by
  obtain ⟨c, rest, rfl, hc, hrest⟩ := h
  intro d hd
  rcases List.mem_cons.mp hd with rfl | hd
  · exact isWordPart_of_isWordStart hc
  · exact hrest d hd

/-- A word is read back unless a word character follows. -/
theorem Text.IsName.firstTerminal? {w rest : List Char} (hw : IsName w)
    (hrest : ∀ d ∈ rest.head?, Text.isWordPart d = false) :
  firstTerminal? (w ++ rest) = some ⟨.identifier, w, false⟩
  := by
  obtain ⟨c, others, rfl, hc, hothers⟩ := hw
  rw [List.cons_append, TriggerLang.firstTerminal?, Lexeme.first_of_isWordStart hc,
    List.takeWhile_append_of_head hothers hrest]
  rfl

/-- A text that is not empty is its first lexeme and a shorter text. -/
theorem exists_first_append (c : Char) (others : List Char) :
  ∃ rest, c :: others = (Lexeme.first c others).text ++ rest
    ∧ rest.length < (c :: others).length
  := by
  obtain ⟨rest, hrest⟩ := Lexeme.first_prefix c others
  have hpos := List.length_pos_iff.mpr (Lexeme.first_text_ne_nil c others)
  have hlength := congrArg List.length hrest
  rw [List.length_append] at hlength
  exact ⟨rest, hrest.symm, by omega⟩

/-- Induction along the lexemes of a text. -/
@[elab_as_elim]
theorem lexemes_induction {motive : List Char → Prop} (nil : motive [])
    (cons : ∀ c others rest, c :: others = (Lexeme.first c others).text ++ rest →
      motive rest → motive (c :: others))
    (text : List Char) :
  motive text
  := by
  induction hlength : text.length using Nat.strongRecOn generalizing text with
  | ind n ih =>
    cases text with
    | nil => exact nil
    | cons c others =>
      obtain ⟨rest, htext, hshorter⟩ := exists_first_append c others
      exact cons c others rest htext (ih rest.length (hlength ▸ hshorter) rest rfl)

section

variable {c : Char} {others rest : List Char}
  (htext : c :: others = (Lexeme.first c others).text ++ rest)

include htext

/-- The first lexeme is followed by the lexemes of the rest. -/
theorem lexemes_of_first_append :
  lexemes (c :: others) = Lexeme.first c others :: lexemes rest
  := by
  have hdrop := congrArg (List.drop (Lexeme.first c others).text.length) htext
  rw [List.drop_left] at hdrop
  rw [lexemes, hdrop]

theorem terminals_of_first_append :
  terminals (c :: others) = (Lexeme.first c others).terminal :: terminals rest
  := by
  rw [terminals, lexemes_of_first_append htext, List.map_cons]
  rfl

theorem firstTerminal?_of_first_append :
  firstTerminal? ((Lexeme.first c others).terminal.text ++ rest)
    = some (Lexeme.first c others).terminal
  := by
  have htext' : (Lexeme.first c others).terminal.text ++ rest = c :: others := htext.symm
  rw [htext']
  rfl

end

/-- The texts of the lexemes make up the text. -/
theorem flatMap_text_lexemes (text : List Char) :
  (lexemes text).flatMap Lexeme.text = text
  := by
  induction text using lexemes_induction with
  | nil => rw [lexemes, List.flatMap_nil]
  | cons c others rest htext ih =>
    rw [lexemes_of_first_append htext, List.flatMap_cons, ih, ← htext]

/-- The texts of the terminals of a text make it up. -/
theorem flatMap_text_terminals (text : List Char) :
  (terminals text).flatMap Terminal.text = text
  := by
  rw [terminals, List.flatMap_map]
  exact flatMap_text_lexemes text

namespace Terminal

/-- Digits are read back as an integer, unless another digit or a fraction follows. -/
theorem firstTerminal?_integer {digits rest : List Char} (hne : digits ≠ [])
    (hdigits : ∀ c ∈ digits, Text.isDigit c = true)
    (hrest : ∀ c ∈ rest.head?, Text.isDigit c = false)
    (hfraction : ∀ d others, rest = '.' :: d :: others → Text.isDigit d = false) :
  firstTerminal? (digits ++ rest) = some ⟨.integer, digits, false⟩
  := by
  have htake := List.takeWhile_append_of_head hdigits hrest
  have hdrop := List.dropWhile_append_of_head hdigits hrest
  cases digits with
  | nil => exact absurd rfl hne
  | cons c others =>
    have hc := hdigits c List.mem_cons_self
    rw [List.cons_append, firstTerminal?, Lexeme.first_of_isDigit hc, ← List.cons_append,
      Lexeme.number, htake, hdrop]
    split
    · rename_i d others'
      rw [hfraction d others' rfl]
      rfl
    · rfl

/-- Digits around a point are read back as a number, unless another digit follows. -/
theorem firstTerminal?_float {whole fraction rest : List Char} (hwhole : whole ≠ [])
    (hfraction : fraction ≠ []) (hwholeDigits : ∀ c ∈ whole, Text.isDigit c = true)
    (hfractionDigits : ∀ c ∈ fraction, Text.isDigit c = true)
    (hrest : ∀ c ∈ rest.head?, Text.isDigit c = false) :
  firstTerminal? (whole ++ '.' :: fraction ++ rest)
    = some ⟨.float, whole ++ '.' :: fraction, false⟩
  := by
  have hpoint : ∀ c ∈ ('.' :: fraction ++ rest).head?, Text.isDigit c = false := by
    rintro c ⟨⟩
    decide
  have htake := List.takeWhile_append_of_head hwholeDigits hpoint
  have hdrop := List.dropWhile_append_of_head hwholeDigits hpoint
  cases whole with
  | nil => exact absurd rfl hwhole
  | cons c others =>
    have hc := hwholeDigits c List.mem_cons_self
    rw [List.append_assoc, List.cons_append, firstTerminal?, Lexeme.first_of_isDigit hc,
      ← List.cons_append, Lexeme.number, htake, hdrop]
    cases fraction with
    | nil => exact absurd rfl hfraction
    | cons d digits =>
      have hd := hfractionDigits d List.mem_cons_self
      have hfollowing := List.takeWhile_append_of_head
        (fun c hc => hfractionDigits c (List.mem_cons_of_mem d hc)) hrest
      simp only [List.cons_append, hd, if_true, hfollowing]
      rfl

/-- A symbol is read back unless a character follows that makes another symbol or a comment of
it. -/
theorem firstTerminal?_symbol (s : Symbol) {rest : List Char}
    (h : s.standsAlone = false → rest.head? ≠ some '=' ∧ rest.head? ≠ some '/') :
  firstTerminal? (s.spelling ++ rest) = some (ofSymbol s)
  := by
  cases rest with
  | nil => cases s <;> rfl
  | cons d rest =>
    cases hs : s.standsAlone with
    | true =>
      cases s <;> first
        | exact Bool.noConfusion hs
        | exact congrArg some (Lexeme.first_of_leading? rfl (by simp)
            (by simp [Symbol.leading?, Symbol.all, Symbol.spelling, List.isPrefixOf]))
    | false =>
      have hequal : '=' ≠ d := by simpa using (h hs).1.symm
      have hslash : '/' ≠ d := by simpa using (h hs).2.symm
      cases s <;> first
        | exact Bool.noConfusion hs
        | exact congrArg some (Lexeme.first_of_leading? rfl (by simp [hslash.symm])
            (by simp [Symbol.leading?, Symbol.all, Symbol.spelling, List.isPrefixOf, hequal]))

/-- A comment reaches to the end of its line. -/
theorem firstTerminal?_comment {line rest : List Char}
    (hline : ∀ c ∈ line, Text.isLineBreak c = false)
    (hrest : ∀ c ∈ rest.head?, Text.isLineBreak c = true) :
  firstTerminal? ('/' :: '/' :: line ++ rest) = some ⟨.comment, '/' :: '/' :: line, false⟩
  := by
  have htake : ('/' :: (line ++ rest)).takeWhile (fun c => !Text.isLineBreak c)
      = '/' :: line := by
    rw [List.takeWhile_cons_of_pos (by decide), List.takeWhile_append_of_head]
    · simpa using hline
    · simpa using hrest
  have hlexeme : Lexeme.first '/' ('/' :: (line ++ rest))
      = { kind := .comment, text := '/' :: '/' :: line } := by
    rw [← htake]
    rfl
  exact congrArg (fun lexeme => some lexeme.terminal) hlexeme

/-- A comment is followed by the terminals of the lines after it. -/
theorem terminals_comment {line rest : List Char}
    (hline : ∀ c ∈ line, Text.isLineBreak c = false)
    (hrest : ∀ c ∈ rest.head?, Text.isLineBreak c = true) :
  terminals ('/' :: '/' :: line ++ rest)
    = ⟨.comment, '/' :: '/' :: line, false⟩ :: terminals rest
  := @terminals_append ⟨.comment, '/' :: '/' :: line, false⟩ rest (firstTerminal?_comment hline hrest)

/-- A string literal is read back whatever follows. -/
theorem firstTerminal?_quote (value rest : List Char) :
  firstTerminal? (quote value ++ rest) = some ⟨.string, quote value, false⟩
  := by
  obtain ⟨inside, htext, hscan⟩ := scansString_quote value rest
  rw [htext, firstTerminal?, Lexeme.first_quote, hscan.stringBody_eq, quote_eq_pieces]
  rfl

end Terminal

/-- A string literal stands on a single line. -/
theorem isLineBreak_of_mem_quote {value : List Char} {c : Char} (h : c ∈ quote value) :
  Text.isLineBreak c = false
  := by
  simp only [quote, List.cons_append, List.mem_cons, List.mem_append, List.mem_flatMap,
    List.not_mem_nil, or_false] at h
  rcases h with rfl | ⟨d, -, h⟩ | rfl
  · rfl
  · unfold escape at h
    split at h <;> simp only [List.mem_cons, List.not_mem_nil, or_false] at h
    · rcases h with rfl | rfl <;> rfl
    · rcases h with rfl | rfl <;> rfl
    · rcases h with rfl | rfl <;> rfl
    · rcases h with rfl | rfl <;> rfl
    · rcases h with rfl | rfl <;> rfl
    · subst h
      simp_all [Text.isLineBreak]
  · rfl

end TriggerLang
