import TriggerLang.Fragment.Basic
import TriggerLang.Number.Decimal
import TriggerLang.Text.Printable

/-!
# Text of fragments in messages

`quoted` shows a fragment inside a message: strings stand in single quotes, or in double
quotes if they hold a single quote and no double one, with everything that would not
show escaped.  `plain` is the same but for a string, which stands for itself.
-/

namespace TriggerLang

/-- The last `width` hexadecimal digits of `n`. -/
def hexDigits (width n : Nat) : List Char :=
  let digits := Nat.toDigits 16 n
  List.replicate (width - digits.length) '0' ++ digits

/-- A character of a string that is quoted with `quote`. -/
def escapeShown (quote c : Char) : List Char :=
  if c = quote ∨ c = '\\' then ['\\', c]
  else if c = '\n' then ['\\', 'n']
  else if c = '\r' then ['\\', 'r']
  else if c = '\t' then ['\\', 't']
  else if Text.isPrintable c then [c]
  else if c.toNat < 0x100 then '\\' :: 'x' :: hexDigits 2 c.toNat
  else if c.toNat < 0x10000 then '\\' :: 'u' :: hexDigits 4 c.toNat
  else '\\' :: 'U' :: hexDigits 8 c.toNat

/-- A string in quotes, as messages and listings show it. -/
def quoteShown (s : List Char) : List Char :=
  let quote := if s.contains '\'' && !s.contains '"' then '"' else '\''
  quote :: s.flatMap (escapeShown quote) ++ [quote]

namespace Fragment

/-- The pieces with a comma and a space between them. -/
def commaSeparated (pieces : List (List Char)) : List Char :=
  [',', ' '].intercalate pieces

mutual

/-- The fragment inside a message. -/
def quoted : Fragment → List Char
  | .null => "None".toList
  | .boolean true => "True".toList
  | .boolean false => "False".toList
  | .integer n => integerText n
  | .float x => x.text
  | .string s => quoteShown s.toList
  | .list items => '[' :: commaSeparated (quotedItems items) ++ [']']
  | .mapping fields => '\x7b' :: commaSeparated (quotedFields fields) ++ ['\x7d']

/-- Every item inside a message. -/
def quotedItems : List Fragment → List (List Char)
  | [] => []
  | item :: rest => item.quoted :: quotedItems rest

/-- Every field inside a message. -/
def quotedFields : Fields → List (List Char)
  | [] => []
  | (key, value) :: rest =>
    (quoteShown key.toList ++ ':' :: ' ' :: value.quoted) :: quotedFields rest

end

/-- The fragment as plain text. -/
def plain : Fragment → String
  | .string s => s
  | fragment => String.ofList fragment.quoted

end Fragment

end TriggerLang
