import TriggerLang.Text.Position
import TriggerLang.Text.Span

/-!
# Regions

A region is the part of a text between two positions, as an editor marks it; its last
column is exclusive.  Regions are computed on a single line of a script and then moved
to the line's place in the whole script: their first column moves by the line's indent,
and so does their last one if they end on the line they start on.
-/

namespace TriggerLang.Text

/-- The part of a text from `start` up to but not including `stop`. -/
structure Region where
  start : Position
  stop : Position
  start_le_stop : start ≤ stop
deriving DecidableEq, Repr

namespace Region

/-- The region with the given lines and columns. -/
def ofInts (startLine startColumn endLine endColumn : Int) : Except RangeError Region :=
  if hline : 0 < startLine ∧ 0 < endLine then
    if hcolumn : 0 < startColumn ∧ 0 < endColumn then
      let start : Position :=
        ⟨startLine.toNat, startColumn.toNat, by omega, by omega⟩
      let stop : Position :=
        ⟨endLine.toNat, endColumn.toNat, by omega, by omega⟩
      if h : start ≤ stop then .ok ⟨start, stop, h⟩ else .error .backwardRegion
    else
      .error .columnNotPositive
  else
    .error .lineNotPositive

/-- The region of `text` that a span covers. -/
def ofSpan (text : List Char) (span : Span) : Region :=
  let start := Position.ofOffset text span.start
  ⟨start, start.advance (text.drop span.start) (span.stop - span.start), start.le_advance _ _⟩

/-- The region of line `number` from an offset into the line over `length` characters. -/
def onLine (number : Nat) (number_pos : 0 < number) (offset length : Nat) : Region where
  start := ⟨number, offset + 1, number_pos, Nat.succ_pos offset⟩
  stop := ⟨number, offset + length + 1, number_pos, Nat.succ_pos (offset + length)⟩
  start_le_stop := .inr ⟨rfl, Nat.succ_le_succ (Nat.le_add_right offset length)⟩

/-- The region of a text that is a single line. -/
def ofLine (text : List Char) : Region :=
  onLine 1 Nat.one_pos 0 text.length

/-- The region starts and ends on one line. -/
def isSingleLine (region : Region) : Bool :=
  region.start.line == region.stop.line

/-- The region moved to start on line `line`, its columns on the first line shifted by
`delta`. -/
def move (region : Region) (line delta : Int) : Except RangeError Region :=
  let lineDelta := line - region.start.line
  ofInts line (region.start.column + delta) (region.stop.line + lineDelta)
    (region.stop.column + if region.isSingleLine then delta else 0)

/-- The region moved to start on line `number`, its columns on the first line shifted to
the right by `indent`. -/
def place (region : Region) (number : Nat) (number_pos : 0 < number) (indent : Nat) : Region where
  start := ⟨number, region.start.column + indent, number_pos,
    Nat.lt_of_lt_of_le region.start.column_pos (Nat.le_add_right _ _)⟩
  stop := ⟨number + (region.stop.line - region.start.line),
    region.stop.column + if region.isSingleLine then indent else 0,
    Nat.lt_of_lt_of_le number_pos (Nat.le_add_right _ _),
    Nat.lt_of_lt_of_le region.stop.column_pos (Nat.le_add_right _ _)⟩
  start_le_stop := by
    have h := Position.le_def.mp region.start_le_stop
    rw [Position.le_def]
    by_cases hline : region.start.line = region.stop.line <;>
      simp only [isSingleLine, hline, beq_self_eq_true, beq_iff_eq, if_true, if_false] <;> omega

/-- The lines and columns of the region in the order of the region's parts. -/
def bounds (region : Region) : List Nat :=
  [region.start.line, region.start.column, region.stop.line, region.stop.column]

/-- The order of regions: by their bounds, from the first to the last. -/
protected def le (r s : Region) : Bool :=
  !List.lex s.bounds r.bounds

/-- The region as a listing shows it. -/
def text (region : Region) : String :=
  s!"SourceRange({region.start.line}:{region.start.column}" ++
    s!"-{region.stop.line}:{region.stop.column})"

end Region

end TriggerLang.Text
