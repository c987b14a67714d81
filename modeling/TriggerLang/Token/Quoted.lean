/-!
# String literals

`quote` writes a string between double quotes and escapes the characters that would end
the literal or the line; `unquote` reads the text of a string token, whether or not it
has a closing quote.
-/

namespace TriggerLang

/-- A character within a string literal. -/
def escape : Char → List Char
  | '\\' => ['\\', '\\']
  | '"' => ['\\', '"']
  | '\n' => ['\\', 'n']
  | '\r' => ['\\', 'r']
  | '\t' => ['\\', 't']
  | c => [c]

/-- The character that `c` stands for after a backslash. -/
def unescape : Char → Char
  | 'n' => '\n'
  | 't' => '\t'
  | 'r' => '\r'
  | c => c

/-- The string literal for `value`. -/
def quote (value : List Char) : List Char :=
  '"' :: value.flatMap escape ++ ['"']

/-- The characters that the inside of a string literal stands for; a backslash at the very
end stands for itself. -/
def unescapeAll : List Char → List Char
  | '\\' :: c :: rest => unescape c :: unescapeAll rest
  | c :: rest => c :: unescapeAll rest
  | [] => []

/-- The inside of a string literal ends with a quote that no backslash escapes. -/
def isClosed (inside : List Char) : Bool :=
  match inside.reverse with
  | '"' :: before => (before.takeWhile (· == '\\')).length % 2 == 0
  | _ => false

/-- The value of a string literal, of which either quote may be missing. -/
def unquote (raw : List Char) : List Char :=
  let inside :=
    match raw with
    | '"' :: rest => rest
    | _ => raw
  unescapeAll (if isClosed inside then inside.dropLast else inside)

end TriggerLang
