/-!
# Blank characters

The white space of any script and the trimming of a text at its ends.
-/

namespace TriggerLang.Text

/-- The code points of white space. -/
def blankCodes : List Nat :=
  [0x09, 0x0A, 0x0B, 0x0C, 0x0D, 0x1C, 0x1D, 0x1E, 0x1F, 0x20, 0x85, 0xA0, 0x1680, 0x2000, 0x2001,
    0x2002, 0x2003, 0x2004, 0x2005, 0x2006, 0x2007, 0x2008, 0x2009, 0x200A, 0x2028, 0x2029, 0x202F,
    0x205F, 0x3000]

/-- A white space character. -/
def isBlank (c : Char) : Bool :=
  blankCodes.contains c.toNat

/-- `text` without the white space it starts with. -/
def trimStart (text : List Char) : List Char :=
  text.dropWhile isBlank

/-- `text` without the white space it ends with. -/
def trimEnd (text : List Char) : List Char :=
  (text.reverse.dropWhile isBlank).reverse

/-- `text` without the white space at either end. -/
def trim (text : List Char) : List Char :=
  trimEnd (trimStart text)

/-- The number of white space characters that `text` starts with. -/
def indent (text : List Char) : Nat :=
  (text.takeWhile isBlank).length

/-- The indent and what follows it make up the text. -/
theorem take_indent_append_trimStart (text : List Char) :
  text.take (indent text) ++ trimStart text = text
  := by
  induction text with
  | nil => rfl
  | cons c rest ih =>
    by_cases hc : isBlank c = true <;>
      simp_all [indent, trimStart]

end TriggerLang.Text
