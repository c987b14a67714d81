import TriggerLang.Operator

/-!
# Terminals

A terminal is what the grammar sees of a lexeme: its kind, its text, and whether it is a
string that is never closed.  Where it stands and how far it is counted to reach is left
out, so a lexeme and the token it makes are the same terminal.
-/

namespace TriggerLang

/-- A lexeme as the grammar sees it. -/
structure Terminal where
  kind : TokenKind
  text : List Char
  /-- A string without a closing quote. -/
  unterminated : Bool := false
deriving DecidableEq, Repr

namespace Terminal

/-- The text of the terminal as a name. -/
def word (terminal : Terminal) : String :=
  String.ofList terminal.text

@[simp]
theorem word_mk (kind : TokenKind) (w : String) (unterminated : Bool) :
  word ⟨kind, w.toList, unterminated⟩ = w
  := String.ofList_toList

/-- The terminal means something to the grammar. -/
def isSignificant (terminal : Terminal) : Bool :=
  terminal.kind.isSignificant

/-- The operator that a terminal stands for between two operands. -/
def operator? (terminal : Terminal) : Option Operator :=
  match terminal.kind with
  | .symbol s => Operator.ofSymbol? s
  | .identifier =>
    if terminal.word = "or" then some .or else if terminal.word = "and" then some .and else none
  | _ => none

/-- The terminal without the text of a comment. -/
def silenced (terminal : Terminal) : Terminal :=
  if terminal.kind = .comment then ⟨.comment, [], false⟩ else terminal

theorem silenced_of_ne {terminal : Terminal} (h : terminal.kind ≠ .comment) :
  terminal.silenced = terminal
  := if_neg h

@[simp]
theorem silenced_kind (terminal : Terminal) :
  terminal.silenced.kind = terminal.kind
  := by
  rw [silenced]
  split
  · rename_i h
    exact h.symm
  · rfl

/-- Terminals that differ in the texts of comments only are of one kind, and the same if they
are no comments. -/
theorem of_silenced_eq {t u : Terminal} (h : t.silenced = u.silenced) :
  t.kind = u.kind ∧ (t.kind ≠ .comment → t = u)
  := by
  have hkind : t.kind = u.kind := by rw [← silenced_kind, h, silenced_kind]
  refine ⟨hkind, fun hne => ?_⟩
  rwa [silenced_of_ne hne, silenced_of_ne (hkind ▸ hne)] at h

/-- The texts of comments do not matter to what the grammar sees. -/
theorem filter_isSignificant_map_silenced (ts : List Terminal) :
  (ts.map silenced).filter isSignificant = ts.filter isSignificant
  := by
  induction ts with
  | nil => rfl
  | cons t rest ih =>
    by_cases hkind : t.kind = .comment
    · have hdropped : t.isSignificant = false := by
        rw [isSignificant, hkind]
        rfl
      rw [List.map_cons, silenced, if_pos hkind, List.filter_cons_of_neg (Bool.noConfusion : ¬ _),
        ih, List.filter_cons_of_neg (by simp [hdropped])]
    · rw [List.map_cons, silenced_of_ne hkind, List.filter_cons, List.filter_cons, ih]

/-- The terminal of a symbol. -/
def ofSymbol (s : Symbol) : Terminal :=
  ⟨.symbol s, s.spelling, false⟩

end Terminal

/-- The terminal of a lexeme. -/
def Lexeme.terminal (lexeme : Lexeme) : Terminal :=
  ⟨lexeme.kind, lexeme.text, lexeme.unterminated⟩

/-- The terminal of a token. -/
def Token.terminal (token : Token) : Terminal :=
  ⟨token.kind, token.text, token.flags.unterminated⟩

/-- The terminals of a text, with those that mean nothing to the grammar. -/
def terminals (source : List Char) : List Terminal :=
  (lexemes source).map Lexeme.terminal

@[simp]
theorem terminals_nil :
  terminals [] = []
  := by
  rw [terminals, lexemes, List.map_nil]

@[simp]
theorem Token.terminal_kind (token : Token) :
  token.terminal.kind = token.kind
  := rfl

@[simp]
theorem Token.terminal_text (token : Token) :
  token.terminal.text = token.text
  := rfl

@[simp]
theorem Token.terminal_word (token : Token) :
  token.terminal.word = token.word
  := rfl

@[simp]
theorem Token.terminal_operator? (token : Token) :
  token.terminal.operator? = Operator.ofToken? token
  := rfl

/-- Placing lexemes in a text keeps their terminals. -/
theorem Token.map_terminal_place (start : Nat) (afterLineBreak : Bool) (ls : List Lexeme) :
  (Token.place start afterLineBreak ls).map Token.terminal = ls.map Lexeme.terminal
  := by
  induction ls generalizing start afterLineBreak with
  | nil => rfl
  | cons lexeme rest ih =>
    rw [Token.place, List.map_cons, List.map_cons, ih]
    rfl

/-- The tokens of a text are its terminals. -/
theorem map_terminal_properTokens (source : List Char) :
  (properTokens source).map Token.terminal = terminals source
  := by
  rw [properTokens, Token.map_terminal_place, terminals]

/-- The terminals of the tokens that mean something are the terminals of the text that do. -/
theorem map_terminal_significantTokens (source : List Char) :
  (significantTokens source).map Token.terminal = (terminals source).filter Terminal.isSignificant
  := by
  rw [← map_terminal_properTokens, List.filter_map]
  rfl

end TriggerLang
