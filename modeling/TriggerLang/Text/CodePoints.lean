/-!
# Ranges of code points

A property of characters is given beyond ASCII by a table of ranges of code points,
and a character has the property if its code point lies in a range of the table.
-/

namespace TriggerLang.Text

/-- The code point `n` lies in a range of `table`. -/
def liesIn (table : List (Nat × Nat)) (n : Nat) : Bool :=
  table.any fun range => range.1 ≤ n && n ≤ range.2

theorem liesIn_iff {table : List (Nat × Nat)} {n : Nat} :
  liesIn table n = true ↔ ∃ range ∈ table, range.1 ≤ n ∧ n ≤ range.2
  := by
  simp [liesIn]

end TriggerLang.Text
