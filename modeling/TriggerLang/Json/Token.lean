import TriggerLang.Fragment.Basic
import TriggerLang.Number.Decimal
import TriggerLang.Text.Numeral

/-!
# Tokens of JSON

A JSON text consists of brackets, commas, colons, strings and scalar values, with white
space between them.  `scan` cuts a text into these tokens, and fails where no token
starts.  A number is an integer unless it has a fraction or an exponent.
-/

namespace TriggerLang.Json

/-- A token of a JSON text. -/
inductive Token where
  | openList
  | closeList
  | openMapping
  | closeMapping
  | comma
  | colon
  | string (s : String)
  | scalar (value : Fragment)

/-- The white space between tokens. -/
def isSpace (c : Char) : Bool :=
  c == ' ' || c == '\t' || c == '\n' || c == '\r'

/-- The value of a hexadecimal digit. -/
def hexDigit? (c : Char) : Option Nat :=
  if '0' ≤ c && c ≤ '9' then some (c.toNat - '0'.toNat)
  else if 'a' ≤ c && c ≤ 'f' then some (c.toNat - 'a'.toNat + 10)
  else if 'A' ≤ c && c ≤ 'F' then some (c.toNat - 'A'.toNat + 10)
  else none

/-- The value of four hexadecimal digits. -/
def hexUnit? (a b c d : Char) : Option Nat := do
  return (((← hexDigit? a) * 16 + (← hexDigit? b)) * 16 + (← hexDigit? c)) * 16 + (← hexDigit? d)

/-- The character that stands for itself or for a control character after a backslash. -/
def simpleEscape? : Char → Option Char
  | '"' => some '"'
  | '\\' => some '\\'
  | '/' => some '/'
  | 'b' => some '\x08'
  | 'f' => some '\x0c'
  | 'n' => some '\n'
  | 'r' => some '\r'
  | 't' => some '\t'
  | _ => none

/-- The first half of a pair of units that stands for one character. -/
def isHighSurrogate (n : Nat) : Bool :=
  0xD800 ≤ n && n < 0xDC00

/-- The second half of a pair of units that stands for one character. -/
def isLowSurrogate (n : Nat) : Bool :=
  0xDC00 ≤ n && n < 0xE000

/-- The character with a code point; half a pair is no character and gives the replacement
character. -/
def charOfCode (n : Nat) : Char :=
  if isHighSurrogate n || isLowSurrogate n then '\uFFFD' else Char.ofNat n

/-- The characters that a list of code points and halves of pairs stands for. -/
def joinUnits : List Nat → List Char
  | [] => []
  | high :: low :: rest =>
    if isHighSurrogate high && isLowSurrogate low then
      Char.ofNat (0x10000 + (high - 0xD800) * 0x400 + (low - 0xDC00)) :: joinUnits rest
    else
      charOfCode high :: joinUnits (low :: rest)
  | [n] => [charOfCode n]

/-- The units of a string whose opening quote has been read, and what follows its closing
quote. -/
def stringBody? : List Char → Option (List Nat × List Char)
  | [] => none
  | '\\' :: 'u' :: a :: b :: c :: d :: rest => do
    let unit ← hexUnit? a b c d
    let (units, rest) ← stringBody? rest
    return (unit :: units, rest)
  | '\\' :: e :: rest => do
    let c ← simpleEscape? e
    let (units, rest) ← stringBody? rest
    return (c.toNat :: units, rest)
  | c :: rest =>
    if c = '"' then
      some ([], rest)
    else if c.toNat < 0x20 ∨ c = '\\' then
      none
    else do
      let (units, rest) ← stringBody? rest
      return (c.toNat :: units, rest)

/-- The digits that a text starts with, and what follows them. -/
def spanDigits (text : List Char) : List Char × List Char :=
  (text.takeWhile Text.isDigit, text.dropWhile Text.isDigit)

/-- The whole part of a number: a zero, or digits that do not start with one. -/
def wholePart? (text : List Char) : Option (List Char × List Char) :=
  match text with
  | '0' :: rest => some (['0'], rest)
  | c :: _ => if Text.isDigit c then some (spanDigits text) else none
  | [] => none

/-- The digits after the point of a number, if a digit follows a point. -/
def fractionPart (text : List Char) : List Char × List Char :=
  match text with
  | '.' :: d :: rest => if Text.isDigit d then spanDigits (d :: rest) else ([], text)
  | _ => ([], text)

/-- The exponent of a number, if there is one. -/
def exponentPart (text : List Char) : Option Int × List Char :=
  match text with
  | e :: rest =>
    if e = 'e' ∨ e = 'E' then
      let (negative, digits) :=
        match rest with
        | '-' :: digits => (true, digits)
        | '+' :: digits => (false, digits)
        | digits => (false, digits)
      match spanDigits digits with
      | ([], _) => (none, text)
      | (digits, rest) =>
        let n := Int.ofNat (readDigits digits)
        (some (if negative then -n else n), rest)
    else
      (none, text)
  | [] => (none, text)

/-- The number with the given parts.  An exponent that is out of all proportion to the
digits is cut down, which leaves the number infinite or zero. -/
def numberValue (negative : Bool) (whole fraction : List Char) (exponent : Option Int) : Fragment :=
  if fraction.isEmpty && exponent.isNone then
    let n := Int.ofNat (readDigits whole)
    .integer (if negative then -n else n)
  else
    let digits := whole ++ fraction
    let bound := Int.ofNat (400 + digits.length)
    let exponent := max (-bound) (min bound (exponent.getD 0))
    .float (Binary64.ofDecimal negative (readDigits digits) (exponent - fraction.length))

/-- The number that a text starts with, and what follows it. -/
def number? (text : List Char) : Option (Fragment × List Char) := do
  let (negative, unsigned) :=
    match text with
    | '-' :: rest => (true, rest)
    | _ => (false, text)
  let (whole, rest) ← wholePart? unsigned
  let (fraction, rest) := fractionPart rest
  let (exponent, rest) := exponentPart rest
  return (numberValue negative whole fraction exponent, rest)

/-- The words that stand for values. -/
def words : List (List Char × Fragment) :=
  [("null".toList, .null), ("true".toList, .boolean true), ("false".toList, .boolean false),
    ("Infinity".toList, .float (.infinity false)), ("-Infinity".toList, .float (.infinity true))]

/-- The word that a text starts with, and what follows it. -/
def word? (text : List Char) : Option (Fragment × List Char) :=
  (words.find? fun word => word.1.isPrefixOf text).map fun word =>
    (word.2, text.drop word.1.length)

/-- The token that the text `c :: rest` starts with, and what follows it. -/
def firstToken? (c : Char) (rest : List Char) : Option (Token × List Char) :=
  match c with
  | '[' => some (.openList, rest)
  | ']' => some (.closeList, rest)
  | '\x7b' => some (.openMapping, rest)
  | '\x7d' => some (.closeMapping, rest)
  | ',' => some (.comma, rest)
  | ':' => some (.colon, rest)
  | '"' => (stringBody? rest).map fun (units, rest) =>
    (.string (String.ofList (joinUnits units)), rest)
  | _ => ((word? (c :: rest)).orElse fun _ => number? (c :: rest)).map fun (value, rest) =>
    (.scalar value, rest)

/-- The tokens of a text; every token takes at least one character. -/
def scan? : List Char → Option (List Token)
  | [] => some []
  | c :: rest =>
    if isSpace c then
      scan? rest
    else
      match firstToken? c rest with
      | none => none
      | some (token, after) =>
        if _h : after.length ≤ rest.length then (scan? after).map (token :: ·) else none
termination_by text => text.length
decreasing_by all_goals simp only [List.length_cons]; omega

end TriggerLang.Json
