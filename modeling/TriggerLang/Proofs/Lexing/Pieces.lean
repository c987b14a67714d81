import Mathlib.Data.List.Induction
import TriggerLang.Token.Lexeme
import TriggerLang.Token.Quoted

/-!
# Pieces of string literals

Behind its opening quote a string literal is read piece by piece, from left to right: a piece
is a character by itself, or a backslash with the character that it takes along.  The
literal ends with a quote that no backslash takes along, or without one where its line or the
text ends; a backslash at the very end of the text takes nothing along.

The lexer goes over the pieces and forgets them, and the value of a literal is read from its
characters again.  Whether the last quote closes the literal is then seen from the number of
backslashes before it: behind whole pieces this number is even, so a quote that has been taken
along is the one behind an odd number.
-/

namespace TriggerLang

/-- A piece of a string literal. -/
inductive StringPiece where
  /-- A character by itself. -/
  | plain (c : Char)
  /-- A backslash with the character that it takes along. -/
  | escaped (c : Char)
deriving DecidableEq

namespace StringPiece

def text : StringPiece → List Char
  | .plain c => [c]
  | .escaped c => ['\\', c]

/-- The character that the piece stands for. -/
def value : StringPiece → Char
  | .plain c => c
  | .escaped c => unescape c

/-- A character by itself neither ends the literal or its line nor takes another one along. -/
def Stands : StringPiece → Prop
  | .plain c => c ≠ '"' ∧ c ≠ '\\' ∧ Text.isLineBreak c = false
  | .escaped _ => True

/-- A backslash takes part in the piece. -/
def isEscaped : StringPiece → Bool
  | .plain _ => false
  | .escaped _ => true

/-- The piece that a character is written as. -/
def ofChar : Char → StringPiece
  | '\\' => .escaped '\\'
  | '"' => .escaped '"'
  | '\n' => .escaped 'n'
  | '\r' => .escaped 'r'
  | '\t' => .escaped 't'
  | c => .plain c

@[simp]
theorem text_ofChar (c : Char) :
  (ofChar c).text = escape c
  := by
  unfold ofChar
  split
  · rfl
  · rfl
  · rfl
  · rfl
  · rfl
  · simp_all [escape, text]

@[simp]
theorem value_ofChar (c : Char) :
  (ofChar c).value = c
  := by
  unfold ofChar
  split <;> rfl

theorem stands_ofChar (c : Char) :
  (ofChar c).Stands
  := by
  unfold ofChar
  split
  · trivial
  · trivial
  · trivial
  · trivial
  · trivial
  · rename_i hbackslash hquote hnewline hreturn _
    refine ⟨hquote, hbackslash, ?_⟩
    rw [Text.isLineBreak, beq_eq_false_iff_ne.mpr hnewline, beq_eq_false_iff_ne.mpr hreturn]
    rfl

end StringPiece

/-- What a string literal ends with. -/
inductive StringEnd where
  /-- The closing quote. -/
  | quote
  /-- A backslash at the end of the text. -/
  | backslash
  /-- Nothing, where the line or the text ends. -/
  | missing
deriving DecidableEq

namespace StringEnd

def text : StringEnd → List Char
  | .quote => ['"']
  | .backslash => ['\\']
  | .missing => []

/-- What the end of a literal adds to its value: a backslash that takes nothing along stands for
itself. -/
def value : StringEnd → List Char
  | .quote => []
  | .backslash => ['\\']
  | .missing => []

end StringEnd

/-- The text behind an opening quote is read as pieces up to an end. -/
inductive ScansString : List Char → List StringPiece → StringEnd → Prop where
  | quote (rest : List Char) : ScansString ('"' :: rest) [] .quote
  | backslash : ScansString ['\\'] [] .backslash
  | endOfText : ScansString [] [] .missing
  | endOfLine {c : Char} (hbreak : Text.isLineBreak c = true) (rest : List Char) :
      ScansString (c :: rest) [] .missing
  | plain {c : Char} {rest : List Char} {ps : List StringPiece} {ending : StringEnd}
      (h : (StringPiece.plain c).Stands) :
      ScansString rest ps ending → ScansString (c :: rest) (.plain c :: ps) ending
  | escaped (c : Char) {rest : List Char} {ps : List StringPiece} {ending : StringEnd} :
      ScansString rest ps ending → ScansString ('\\' :: c :: rest) (.escaped c :: ps) ending

/-! ### The lexer -/

namespace Lexeme

/-- A character that is no backslash, by the cases of `stringBody`. -/
theorem ne_backslash_of_cases {c : Char} {text : List Char} (hend : c = '\\' → text = [] → False)
    (hescape : ∀ d rest, c = '\\' → text = d :: rest → False) :
  c ≠ '\\'
  := by
  intro hc
  cases text with
  | nil => exact hend hc rfl
  | cons d rest => exact hescape d rest hc rfl

theorem stringBody_cons {c : Char} (h : c ≠ '\\') (inside : List Char) :
  stringBody (c :: inside)
    = if c = '"' then
        { kind := .string, text := [c] }
      else if Text.isLineBreak c then
        { kind := .string, text := [], unterminated := true }
      else
        { stringBody inside with text := c :: (stringBody inside).text }
  := by
  rw [stringBody.eq_def]
  split
  · simp_all
  · simp_all
  · simp_all
  · rename_i heq
    cases heq
    rfl

end Lexeme

namespace ScansString

/-- Every text behind an opening quote is read in some way. -/
theorem exists_pieces (text : List Char) :
  ∃ ps ending, ScansString text ps ending
  := by
  fun_induction Lexeme.stringBody text with
  | case1 => exact ⟨[], .missing, .endOfText⟩
  | case2 => exact ⟨[], .backslash, .backslash⟩
  | case3 c rest body ih =>
    obtain ⟨ps, ending, h⟩ := ih
    exact ⟨.escaped c :: ps, ending, .escaped c h⟩
  | case4 rest => exact ⟨[], .quote, .quote rest⟩
  | case5 c rest hend hescape hquote hbreak => exact ⟨[], .missing, .endOfLine hbreak rest⟩
  | case6 c rest hend hescape hquote hbreak body ih =>
    obtain ⟨ps, ending, h⟩ := ih
    have hstands : (StringPiece.plain c).Stands :=
      ⟨hquote, Lexeme.ne_backslash_of_cases hend hescape, Bool.eq_false_iff.mpr hbreak⟩
    exact ⟨.plain c :: ps, ending, .plain hstands h⟩

variable {text : List Char} {ps : List StringPiece} {ending : StringEnd}

theorem stands (h : ScansString text ps ending) :
  ∀ p ∈ ps, p.Stands
  := by
  induction h with
  | plain hstands _ ih => exact List.forall_mem_cons.mpr ⟨hstands, ih⟩
  | escaped c _ ih => exact List.forall_mem_cons.mpr ⟨trivial, ih⟩
  | _ => exact List.forall_mem_nil _

/-- The lexer takes the characters of the pieces and of the end. -/
theorem stringBody_eq (h : ScansString text ps ending) :
  Lexeme.stringBody text
    = { kind := .string
        text := ps.flatMap StringPiece.text ++ ending.text
        escaped := ps.any StringPiece.isEscaped || ending == .backslash
        unterminated := ending != .quote }
  := by
  induction h with
  | quote rest => rfl
  | backslash => rfl
  | endOfText => rfl
  | @endOfLine c hbreak rest =>
    have hne : c ≠ '\\' ∧ c ≠ '"' := by
      rw [Text.isLineBreak, Bool.or_eq_true, beq_iff_eq, beq_iff_eq] at hbreak
      rcases hbreak with rfl | rfl <;> decide
    rw [Lexeme.stringBody_cons hne.1, if_neg hne.2, if_pos hbreak]
    rfl
  | @plain c rest ps ending hstands _ ih =>
    obtain ⟨hquote, hbackslash, hbreak⟩ := hstands
    rw [Lexeme.stringBody_cons hbackslash, if_neg hquote, hbreak, ih]
    rfl
  | escaped c _ ih =>
    rw [Lexeme.stringBody, ih]
    rfl

/-- Pieces before a quote are read as they are. -/
theorem of_stands {ps : List StringPiece} (h : ∀ p ∈ ps, p.Stands) (rest : List Char) :
  ScansString (ps.flatMap StringPiece.text ++ '"' :: rest) ps .quote
  := by
  induction ps with
  | nil => exact .quote rest
  | cons p ps ih =>
    obtain ⟨hp, hps⟩ := List.forall_mem_cons.mp h
    cases p with
    | plain c => exact .plain hp (ih hps)
    | escaped c => exact .escaped c (ih hps)

end ScansString

/-! ### The value -/

theorem unescapeAll_cons {c : Char} (h : c ≠ '\\') (rest : List Char) :
  unescapeAll (c :: rest) = c :: unescapeAll rest
  := by
  rw [unescapeAll.eq_def]
  split
  · rename_i heq
    cases heq
    exact absurd rfl h
  · rename_i heq
    cases heq
    rfl
  · rename_i heq
    cases heq

/-- The last character closes a literal if it is a quote behind an even number of
backslashes. -/
theorem isClosed_append_singleton (inside : List Char) (c : Char) :
  isClosed (inside ++ [c])
    = (c == '"' && (inside.reverse.takeWhile (· == '\\')).length % 2 == 0)
  := by
  rw [isClosed, List.reverse_append, List.reverse_singleton, List.singleton_append]
  split
  · rename_i heq
    cases heq
    rfl
  · rename_i hquote
    have hc : c ≠ '"' := fun hc => hquote inside.reverse (hc ▸ rfl)
    rw [beq_eq_false_iff_ne.mpr hc, Bool.false_and]

section

variable {ps : List StringPiece} (h : ∀ p ∈ ps, p.Stands)

include h

/-- Pieces are decoded one by one, whatever follows them. -/
theorem unescapeAll_append (rest : List Char) :
  unescapeAll (ps.flatMap StringPiece.text ++ rest) = ps.map StringPiece.value ++ unescapeAll rest
  := by
  induction ps with
  | nil => rfl
  | cons p ps ih =>
    obtain ⟨hp, hps⟩ := List.forall_mem_cons.mp h
    have hrest := ih hps
    cases p with
    | plain c => exact (unescapeAll_cons hp.2.1 _).trans (congrArg (c :: ·) hrest)
    | escaped c => exact congrArg (unescape c :: ·) hrest

/-- Pieces end with an even number of backslashes. -/
theorem even_backslashes :
  ((ps.flatMap StringPiece.text).reverse.takeWhile (· == '\\')).length % 2 = 0
  := by
  induction ps using List.reverseRecOn with
  | nil => rfl
  | append_singleton ps p ih =>
    obtain ⟨hps, hp⟩ := List.forall_mem_append.mp h
    have hbefore := ih hps
    rw [List.flatMap_append, List.flatMap_singleton, List.reverse_append]
    generalize (ps.flatMap StringPiece.text).reverse = before at hbefore ⊢
    cases p with
    | plain c =>
      have hc : c ≠ '\\' := (hp _ List.mem_cons_self).2.1
      rw [StringPiece.text, List.reverse_singleton, List.singleton_append,
        List.takeWhile_cons_of_neg (by simpa using hc)]
      rfl
    | escaped c =>
      change ((c :: '\\' :: before).takeWhile (· == '\\')).length % 2 = 0
      by_cases hc : c = '\\'
      · subst hc
        rw [List.takeWhile_cons_of_pos rfl, List.takeWhile_cons_of_pos rfl, List.length_cons,
          List.length_cons, Nat.add_assoc, Nat.add_mod_right, hbefore]
      · rw [List.takeWhile_cons_of_neg (by simpa using hc)]
        rfl

/-- A quote behind pieces closes the literal. -/
theorem isClosed_append_quote :
  isClosed (ps.flatMap StringPiece.text ++ ['"']) = true
  := by
  rw [isClosed_append_singleton, even_backslashes h]
  rfl

/-- Pieces alone never look closed: a quote among them is taken along by a backslash. -/
theorem isClosed_flatMap :
  isClosed (ps.flatMap StringPiece.text) = false
  := by
  rcases List.eq_nil_or_concat ps with rfl | ⟨before, p, rfl⟩
  · rfl
  rw [List.concat_eq_append] at h ⊢
  obtain ⟨hbefore, hp⟩ := List.forall_mem_append.mp h
  have heven := even_backslashes hbefore
  rw [List.flatMap_append, List.flatMap_singleton]
  generalize before.flatMap StringPiece.text = prior at heven
  cases p with
  | plain c =>
    have hc : c ≠ '"' := (hp _ List.mem_cons_self).1
    change isClosed (prior ++ [c]) = false
    rw [isClosed_append_singleton, beq_eq_false_iff_ne.mpr hc, Bool.false_and]
  | escaped c =>
    change isClosed (prior ++ (['\\'] ++ [c])) = false
    rw [← List.append_assoc, isClosed_append_singleton, List.reverse_append,
      List.reverse_singleton, List.singleton_append, List.takeWhile_cons_of_pos rfl,
      List.length_cons, Bool.and_eq_false_iff, beq_eq_false_iff_ne, beq_eq_false_iff_ne]
    omega

/-- A last quote closes the literal if it is the end of it. -/
theorem isClosed_pieces (ending : StringEnd) :
  isClosed (ps.flatMap StringPiece.text ++ ending.text) = (ending == .quote)
  := by
  cases ending with
  | quote => exact isClosed_append_quote h
  | backslash => exact isClosed_append_singleton _ '\\'
  | missing =>
    rw [StringEnd.text, List.append_nil]
    exact isClosed_flatMap h

/-- The value of a literal is that of its pieces and its end. -/
theorem unquote_pieces (ending : StringEnd) :
  unquote ('"' :: (ps.flatMap StringPiece.text ++ ending.text))
    = ps.map StringPiece.value ++ ending.value
  := by
  have hclosed := isClosed_pieces h ending
  change unescapeAll (if isClosed (ps.flatMap StringPiece.text ++ ending.text) then
    (ps.flatMap StringPiece.text ++ ending.text).dropLast
    else ps.flatMap StringPiece.text ++ ending.text) = _
  rw [hclosed]
  cases ending with
  | quote =>
    have hvalue := unescapeAll_append h []
    rw [List.append_nil] at hvalue
    exact (congrArg unescapeAll List.dropLast_concat).trans hvalue
  | backslash => exact unescapeAll_append h ['\\']
  | missing => exact unescapeAll_append h []

end

/-! ### Literals that are written -/

theorem stands_map_ofChar (value : List Char) :
  ∀ p ∈ value.map StringPiece.ofChar, p.Stands
  := by
  intro p hp
  obtain ⟨c, -, rfl⟩ := List.mem_map.mp hp
  exact StringPiece.stands_ofChar c

/-- A literal consists of the pieces that its characters are written as. -/
theorem quote_eq_pieces (value : List Char) :
  quote value = '"' :: ((value.map StringPiece.ofChar).flatMap StringPiece.text
    ++ StringEnd.quote.text)
  := by
  rw [quote, List.flatMap_map]
  simp only [StringPiece.text_ofChar]
  rfl

/-- Reading a string literal undoes writing it. -/
theorem unquote_quote (value : List Char) :
  unquote (quote value) = value
  := by
  rw [quote_eq_pieces, unquote_pieces (stands_map_ofChar value), List.map_map]
  have hid : StringPiece.value ∘ StringPiece.ofChar = id := by
    funext c
    exact StringPiece.value_ofChar c
  rw [hid, List.map_id]
  exact List.append_nil value

/-- Whatever follows a literal, its pieces are read as they were written. -/
theorem scansString_quote (value rest : List Char) :
  ∃ inside, quote value ++ rest = '"' :: inside
    ∧ ScansString inside (value.map StringPiece.ofChar) .quote
  := by
  refine ⟨_, ?_, ScansString.of_stands (stands_map_ofChar value) rest⟩
  rw [quote_eq_pieces]
  simp [StringEnd.text]

end TriggerLang
