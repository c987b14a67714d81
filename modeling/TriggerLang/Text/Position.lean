import TriggerLang.Text.Line

/-!
# Positions

A position is a line and a column, both counted from one.  Walking over the characters
of a text from its first position gives the position of every offset: a character that
ends a line leads to the first column of the next line, any other to the next column.
Walking never leads back, so later offsets have later positions.
-/

namespace TriggerLang.Text

/-- A line and a column, both counted from one. -/
structure Position where
  line : Nat
  column : Nat
  line_pos : 0 < line
  column_pos : 0 < column
deriving DecidableEq, Repr

namespace Position

/-- The order of the positions of a text: by line, then by column. -/
protected def le (p q : Position) : Prop :=
  p.line < q.line ∨ p.line = q.line ∧ p.column ≤ q.column

instance : LE Position :=
  ⟨Position.le⟩

theorem le_def {p q : Position} :
  p ≤ q ↔ p.line < q.line ∨ p.line = q.line ∧ p.column ≤ q.column
  := Iff.rfl

instance (p q : Position) : Decidable (p ≤ q) :=
  decidable_of_iff _ le_def.symm

protected theorem le_refl (p : Position) :
  p ≤ p
  := .inr ⟨rfl, Nat.le_refl p.column⟩

protected theorem le_trans {p q r : Position} (hpq : p ≤ q) (hqr : q ≤ r) :
  p ≤ r
  := by
  rw [le_def] at *
  omega

/-- The first position of a text. -/
def origin : Position :=
  ⟨1, 1, Nat.one_pos, Nat.one_pos⟩

/-- The first position of the next line. -/
def nextLine (p : Position) : Position :=
  ⟨p.line + 1, 1, Nat.succ_pos p.line, Nat.one_pos⟩

/-- The next position on the same line. -/
def nextColumn (p : Position) : Position :=
  ⟨p.line, p.column + 1, p.line_pos, Nat.succ_pos p.column⟩

/-- The position reached from `p` over the first `count` characters of `text`, or over
all of them if there are fewer. -/
def advance (p : Position) : List Char → Nat → Position
  | _, 0 => p
  | [], _ + 1 => p
  | c :: rest, count + 1 =>
    (if endsLine c rest then p.nextLine else p.nextColumn).advance rest count

theorem le_advance (p : Position) (text : List Char) (count : Nat) :
  p ≤ p.advance text count
  := by
  induction text generalizing p count with
  | nil => cases count <;> exact p.le_refl
  | cons c rest ih =>
    cases count with
    | zero => exact p.le_refl
    | succ count =>
      refine Position.le_trans ?_ (ih _ count)
      split
      · exact .inl (Nat.lt_succ_self p.line)
      · exact .inr ⟨rfl, Nat.le_succ p.column⟩

/-- The position of an offset into `text`; offsets beyond the end stand for the end. -/
def ofOffset (text : List Char) (offset : Nat) : Position :=
  origin.advance text offset

/-- The number of lines of `text`: one more than the characters that end a line. -/
def lineCount (text : List Char) : Nat :=
  (ofOffset text text.length).line

end Position

end TriggerLang.Text
