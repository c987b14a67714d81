import TriggerLang.Text.Line
import TriggerLang.Text.Word
import TriggerLang.Token.Kind

/-!
# Lexemes

A text is cut into lexemes from the left.  `Lexeme.first` is the first lexeme of a text
that is not empty: its first characters decide the kind, and it takes as many characters
as belong to it.  Every character belongs to a lexeme, so the lexemes of a text make up
the text.  A symbol is looked for in a window of two characters, and one that is the last
character of the text is counted as wide as the window.
-/

namespace TriggerLang

/-- A piece of a text with its kind. -/
structure Lexeme where
  kind : TokenKind
  text : List Char
  /-- A string with a backslash in it. -/
  escaped : Bool := false
  /-- A string without a closing quote. -/
  unterminated : Bool := false
  /-- How far the lexeme is counted to reach beyond the end of the text. -/
  overhang : Nat := 0
deriving DecidableEq, Repr

namespace Lexeme

/-- The white space within a line. -/
def isSpace (c : Char) : Bool :=
  c == ' ' || c == '\t'

/-- The string whose opening quote has been read: it ends with the next quote, before the
next line break or with the text.  A backslash takes the next character with it, whatever
that is. -/
def stringBody : List Char → Lexeme
  | [] => { kind := .string, text := [], unterminated := true }
  | ['\\'] => { kind := .string, text := ['\\'], escaped := true, unterminated := true }
  | '\\' :: c :: rest =>
    let body := stringBody rest
    { body with text := '\\' :: c :: body.text, escaped := true }
  | c :: rest =>
    if c = '"' then
      { kind := .string, text := [c] }
    else if Text.isLineBreak c then
      { kind := .string, text := [], unterminated := true }
    else
      let body := stringBody rest
      { body with text := c :: body.text }

/-- The number at the start of a text: digits, and a fraction if a point and a digit
follow. -/
def number (text : List Char) : Lexeme :=
  let whole := text.takeWhile Text.isDigit
  match text.dropWhile Text.isDigit with
  | '.' :: d :: rest =>
    if Text.isDigit d then
      { kind := .float, text := whole ++ '.' :: d :: rest.takeWhile Text.isDigit }
    else
      { kind := .integer, text := whole }
  | _ => { kind := .integer, text := whole }

/-- The first lexeme of the text `c :: rest`. -/
def first (c : Char) (rest : List Char) : Lexeme :=
  if Text.isLineBreak c then
    { kind := .newline
      text := if c = '\r' ∧ rest.head? = some '\n' then ['\r', '\n'] else [c] }
  else if isSpace c then
    { kind := .whitespace, text := c :: rest.takeWhile isSpace }
  else if c = '/' ∧ rest.head? = some '/' then
    { kind := .comment, text := c :: rest.takeWhile fun c => !Text.isLineBreak c }
  else if c = '"' then
    let body := stringBody rest
    { body with text := '"' :: body.text }
  else if Text.isDigit c then
    number (c :: rest)
  else if Text.isWordStart c then
    { kind := .identifier, text := c :: rest.takeWhile Text.isWordPart }
  else
    match Symbol.leading? (c :: rest) with
    | some s =>
      { kind := .symbol s, text := s.spelling, overhang := if rest.isEmpty then 1 else 0 }
    | none => { kind := .skipped, text := [c] }

theorem number_text_ne_nil {c : Char} (h : Text.isDigit c = true) (rest : List Char) :
  (number (c :: rest)).text ≠ []
  := by
  simp only [number, List.takeWhile_cons, h, if_true]
  split
  · split <;> simp
  · simp

theorem first_text_ne_nil (c : Char) (rest : List Char) :
  (first c rest).text ≠ []
  := by
  unfold first
  split
  · split <;> simp
  split
  · simp
  split
  · simp
  split
  · simp
  split
  · rename_i h
    exact number_text_ne_nil h rest
  split
  · simp
  · split
    · exact Symbol.spelling_ne_nil _
    · simp

end Lexeme

/-- The lexemes of a text. -/
def lexemes : List Char → List Lexeme
  | [] => []
  | c :: rest =>
    let lexeme := Lexeme.first c rest
    lexeme :: lexemes ((c :: rest).drop lexeme.text.length)
termination_by text => text.length
decreasing_by
  have := List.length_pos_iff.mpr (Lexeme.first_text_ne_nil c rest)
  simp only [List.length_drop, List.length_cons]
  omega

end TriggerLang
