import TriggerLang.Text.Region
import TriggerLang.Token.Lexeme

/-!
# Tokens

A token is a lexeme with its place in the text.  The tokens of a text follow one another
without gaps, and the last one, which is empty, marks the end of the text.  Offsets beyond
the end of the text stand for its end.
-/

namespace TriggerLang

/-- What else is known of a token. -/
structure TokenFlags where
  /-- A line break comes before the token, with nothing but trivia in between. -/
  afterLineBreak : Bool := false
  /-- The token is a string in quotes. -/
  quoted : Bool := false
  /-- The token is a string with a backslash in it. -/
  escaped : Bool := false
  /-- The token is a string without a closing quote. -/
  unterminated : Bool := false
deriving DecidableEq, Repr

/-- The flags as a sum of powers of two. -/
def TokenFlags.toNat (flags : TokenFlags) : Nat :=
  flags.afterLineBreak.toNat + 2 * flags.quoted.toNat + 4 * flags.escaped.toNat +
    8 * flags.unterminated.toNat

/-- A lexeme at an offset of a text. -/
structure Token where
  kind : TokenKind
  start : Nat
  text : List Char
  flags : TokenFlags := {}
  /-- How far the token is counted to reach beyond the end of the text. -/
  overhang : Nat := 0
deriving DecidableEq, Repr

namespace Token

/-- The offset after the token. -/
def stop (token : Token) : Nat :=
  token.start + (token.text.length + token.overhang)

/-- The offsets of the token. -/
def span (token : Token) : Text.Span :=
  ⟨token.start, token.stop, Nat.le_add_right token.start _⟩

/-- The region of `source` that the token covers. -/
def region (token : Token) (source : List Char) : Text.Region :=
  Text.Region.ofSpan source token.span

/-- The text of the token as a name. -/
def word (token : Token) : String :=
  String.ofList token.text

/-- The token is the identifier `word`. -/
def isWord (token : Token) (word : String) : Bool :=
  token.kind == .identifier && token.word == word

/-- The token is the symbol `s`. -/
def isSymbol (token : Token) (s : Symbol) : Bool :=
  token.kind == .symbol s

/-- The token that `lexeme` makes at an offset. -/
def ofLexeme (start : Nat) (afterLineBreak : Bool) (lexeme : Lexeme) : Token where
  kind := lexeme.kind
  start := start
  text := lexeme.text
  flags :=
    { afterLineBreak
      quoted := lexeme.kind == .string
      escaped := lexeme.escaped
      unterminated := lexeme.unterminated }
  overhang := lexeme.overhang

/-- A line break comes before what follows a lexeme of this kind. -/
def breaksLine (kind : TokenKind) (afterLineBreak : Bool) : Bool :=
  kind == .newline || kind.isTrivia && afterLineBreak

/-- The tokens of lexemes that follow one another from an offset, without the end. -/
def place (start : Nat) (afterLineBreak : Bool) : List Lexeme → List Token
  | [] => []
  | lexeme :: rest =>
    let token := ofLexeme start afterLineBreak lexeme
    token :: place token.stop (breaksLine lexeme.kind afterLineBreak) rest

end Token

/-- The tokens of a text, without the end of the text. -/
def properTokens (source : List Char) : List Token :=
  Token.place 0 false (lexemes source)

/-- The token that marks the end of a text; it starts where the last token before it
stops. -/
def endToken (source : List Char) : Token where
  kind := .endOfText
  start := ((properTokens source).getLast?.map Token.stop).getD 0
  text := []

/-- The tokens of a text. -/
def tokens (source : List Char) : List Token :=
  properTokens source ++ [endToken source]

/-- The tokens that mean something to the grammar, without the end of the text. -/
def significantTokens (source : List Char) : List Token :=
  (properTokens source).filter (·.kind.isSignificant)

/-- The first identifier token spelled `name`. -/
def findIdentifier? (source : List Char) (name : String) : Option Token :=
  (properTokens source).find? (·.isWord name)

end TriggerLang
