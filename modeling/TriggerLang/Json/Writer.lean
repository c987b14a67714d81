import TriggerLang.Fragment.Display

/-!
# Writing JSON

A fragment is written over several lines, one item or field a line, indented by two
spaces for every level; empty lists and mappings stay on their line.  The text is ASCII:
every other character is escaped by its UTF-16 units.
-/

namespace TriggerLang.Json

/-- A unit of a character in hexadecimal digits. -/
def escapeUnit (n : Nat) : List Char :=
  '\\' :: 'u' :: hexDigits 4 n

/-- A character within a string. -/
def escapeChar (c : Char) : List Char :=
  if c = '"' ∨ c = '\\' then ['\\', c]
  else if c = '\n' then ['\\', 'n']
  else if c = '\r' then ['\\', 'r']
  else if c = '\t' then ['\\', 't']
  else if c = '\x0c' then ['\\', 'f']
  else if c = '\x08' then ['\\', 'b']
  else if ' ' ≤ c && c ≤ '~' then [c]
  else if c.toNat < 0x10000 then escapeUnit c.toNat
  else
    let n := c.toNat - 0x10000
    escapeUnit (0xD800 + n / 0x400) ++ escapeUnit (0xDC00 + n % 0x400)

/-- A string in double quotes. -/
def writeString (s : String) : List Char :=
  '"' :: s.toList.flatMap escapeChar ++ ['"']

/-- A floating-point number; the infinite ones are words. -/
def writeFloat (x : Binary64) : List Char :=
  if x.isFinite then x.text else x.sign ++ "Infinity".toList

/-- A line break and the white space of a level. -/
def newLine (level : Nat) : List Char :=
  '\n' :: List.replicate (2 * level) ' '

/-- Entries between brackets, each on a line of its own. -/
def bracket (opening closing : Char) (level : Nat) (entries : List (List Char)) : List Char :=
  if entries.isEmpty then
    [opening, closing]
  else
    opening :: newLine (level + 1) ++ (',' :: newLine (level + 1)).intercalate entries ++
      newLine level ++ [closing]

mutual

/-- The fragment at a level of indentation. -/
def writeAt (level : Nat) : Fragment → List Char
  | .null => "null".toList
  | .boolean true => "true".toList
  | .boolean false => "false".toList
  | .integer n => integerText n
  | .float x => writeFloat x
  | .string s => writeString s
  | .list items => bracket '[' ']' level (writeItems (level + 1) items)
  | .mapping fields => bracket '\x7b' '\x7d' level (writeFields (level + 1) fields)

/-- Every item at a level of indentation. -/
def writeItems (level : Nat) : List Fragment → List (List Char)
  | [] => []
  | item :: rest => writeAt level item :: writeItems level rest

/-- Every field at a level of indentation. -/
def writeFields (level : Nat) : Fragment.Fields → List (List Char)
  | [] => []
  | (name, value) :: rest =>
    (writeString name ++ ':' :: ' ' :: writeAt level value) :: writeFields level rest

end

/-- The fragment as a JSON text. -/
def write (fragment : Fragment) : List Char :=
  writeAt 0 fragment

end TriggerLang.Json
