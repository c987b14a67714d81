import TriggerLang.Text.Letter
import TriggerLang.Text.Numeral

/-!
# Words

A word is a maximal run of letters, numerals and underscores.  An identifier is a word
that starts with a letter or an underscore.
-/

namespace TriggerLang.Text

/-- A character that can start an identifier. -/
def isWordStart (c : Char) : Bool :=
  isLetter c || c == '_'

/-- A character that can continue a word. -/
def isWordPart (c : Char) : Bool :=
  isLetter c || isNumeral c || c == '_'

theorem isWordPart_of_isWordStart {c : Char} (h : isWordStart c = true) :
  isWordPart c = true
  := by
  simp only [isWordStart, isWordPart, Bool.or_eq_true] at *
  exact h.elim (fun h => .inl (.inl h)) .inr

theorem isWordPart_of_isDigit {c : Char} (h : isDigit c = true) :
  isWordPart c = true
  := by
  simp [isWordPart, isNumeral_of_isDigit h]

end TriggerLang.Text
