/-!
# Kinds of tokens

A token is white space, a line break, a comment, a skipped character, an identifier, a
literal or a symbol.  The symbols of two characters come first in `Symbol.all`, so that
the first symbol a text starts with is also the longest one.
-/

namespace TriggerLang

/-- The symbols of the script language. -/
inductive Symbol where
  | equal | equalEqual | notEqual | less | lessEqual | greater | greaterEqual
  | ampAmp | pipePipe | bang
  | plus | minus | star | slash | percent
  | comma | dot | at | openParen | closeParen | openBracket | closeBracket
deriving DecidableEq, Repr

namespace Symbol

/-- The characters of a symbol. -/
def spelling : Symbol → List Char
  | .equal => ['=']
  | .equalEqual => ['=', '=']
  | .notEqual => ['!', '=']
  | .less => ['<']
  | .lessEqual => ['<', '=']
  | .greater => ['>']
  | .greaterEqual => ['>', '=']
  | .ampAmp => ['&', '&']
  | .pipePipe => ['|', '|']
  | .bang => ['!']
  | .plus => ['+']
  | .minus => ['-']
  | .star => ['*']
  | .slash => ['/']
  | .percent => ['%']
  | .comma => [',']
  | .dot => ['.']
  | .at => ['@']
  | .openParen => ['(']
  | .closeParen => [')']
  | .openBracket => ['[']
  | .closeBracket => [']']

/-- All symbols, those of two characters first. -/
def all : List Symbol :=
  [.equalEqual, .notEqual, .lessEqual, .greaterEqual, .ampAmp, .pipePipe, .equal, .less, .greater,
    .plus, .minus, .star, .slash, .percent, .bang, .comma, .dot, .at, .openBracket, .closeBracket,
    .openParen, .closeParen]

/-- Every symbol is listed. -/
theorem mem_all (s : Symbol) :
  s ∈ all
  := by
  cases s <;> decide

theorem spelling_ne_nil (s : Symbol) :
  s.spelling ≠ []
  := by
  cases s <;> decide

/-- The longest symbol that a text starts with. -/
def leading? (text : List Char) : Option Symbol :=
  all.find? fun s => s.spelling.isPrefixOf text

/-- The name of a symbol in token listings. -/
def name : Symbol → String
  | .equal => "EQUAL"
  | .equalEqual => "EQUAL_EQUAL"
  | .notEqual => "NOT_EQUAL"
  | .less => "LESS_THAN"
  | .lessEqual => "LESS_THAN_OR_EQUAL"
  | .greater => "GREATER_THAN"
  | .greaterEqual => "GREATER_THAN_OR_EQUAL"
  | .ampAmp => "AMP_AMP"
  | .pipePipe => "PIPE_PIPE"
  | .bang => "BANG"
  | .plus => "PLUS"
  | .minus => "MINUS"
  | .star => "STAR"
  | .slash => "SLASH"
  | .percent => "PERCENT"
  | .comma => "COMMA"
  | .dot => "DOT"
  | .at => "AT"
  | .openParen => "LPAREN"
  | .closeParen => "RPAREN"
  | .openBracket => "LBRACKET"
  | .closeBracket => "RBRACKET"

end Symbol

/-- What a token is. -/
inductive TokenKind where
  | endOfText
  | whitespace
  | newline
  | comment
  | skipped
  | identifier
  | string
  | integer
  | float
  | symbol (s : Symbol)
deriving DecidableEq, Repr

namespace TokenKind

/-- The name of a kind in token listings. -/
def name : TokenKind → String
  | .endOfText => "EOF"
  | .whitespace => "WHITESPACE"
  | .newline => "NEWLINE"
  | .comment => "COMMENT"
  | .skipped => "SKIPPED"
  | .identifier => "IDENTIFIER"
  | .string => "STRING"
  | .integer => "INT"
  | .float => "FLOAT"
  | .symbol s => s.name

/-- Tokens of this kind do not separate a line break from the token after them. -/
def isTrivia : TokenKind → Bool
  | .whitespace | .newline | .comment | .skipped => true
  | _ => false

/-- Tokens of this kind mean something to the grammar; skipped characters do, so that they
are refused. -/
def isSignificant : TokenKind → Bool
  | .whitespace | .newline | .comment => false
  | _ => true

end TokenKind

end TriggerLang
