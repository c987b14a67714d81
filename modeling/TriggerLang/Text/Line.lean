/-!
# Lines

A line ends with a line feed, a carriage return, or a carriage return followed by a
line feed.  `splitLines` cuts a text at its line breaks and drops them, so a text with
`n` line breaks has `n + 1` lines.
-/

namespace TriggerLang.Text

/-- A character of a line break. -/
def isLineBreak (c : Char) : Bool :=
  c == '\n' || c == '\r'

/-- The line break that starts with `c` and goes on with `rest` ends here: `c` is not
the carriage return of a pair. -/
def endsLine (c : Char) (rest : List Char) : Bool :=
  c == '\n' || c == '\r' && rest.head? != some '\n'

/-- The lines of a text, without their line breaks. -/
def splitLines : List Char → List (List Char)
  | [] => [[]]
  | '\r' :: '\n' :: rest => [] :: splitLines rest
  | c :: rest =>
    if isLineBreak c then
      [] :: splitLines rest
    else
      match splitLines rest with
      | [] => [[c]]
      | line :: lines => (c :: line) :: lines

theorem splitLines_ne_nil (text : List Char) :
  splitLines text ≠ []
  := by
  fun_cases splitLines text <;> simp_all

/-- `text` with every line break written as a single line feed. -/
def unifyLineBreaks : List Char → List Char
  | [] => []
  | '\r' :: '\n' :: rest => '\n' :: unifyLineBreaks rest
  | c :: rest => (if c = '\r' then '\n' else c) :: unifyLineBreaks rest

/-- The pieces of a text between the places where `separator` stands. -/
def splitAt (separator : Char) : List Char → List (List Char)
  | [] => [[]]
  | c :: rest =>
    if c = separator then
      [] :: splitAt separator rest
    else
      match splitAt separator rest with
      | [] => [[c]]
      | piece :: pieces => (c :: piece) :: pieces

/-- A line of a script with its number, counted from one. -/
structure Line where
  number : Nat
  text : List Char
  number_pos : 0 < number

/-- The lines of `text`, numbered from `number + 1`. -/
def numberFrom (number : Nat) : List (List Char) → List Line
  | [] => []
  | text :: rest => ⟨number + 1, text, Nat.succ_pos number⟩ :: numberFrom (number + 1) rest

/-- The numbered lines of a text. -/
def numberedLines (text : List Char) : List Line :=
  numberFrom 0 (splitLines text)

end TriggerLang.Text
