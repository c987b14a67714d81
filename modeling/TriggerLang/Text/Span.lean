/-!
# Spans

A span is a half-open range of character offsets into a text.  `Span.ofBounds` and
`Span.ofLength` read one from integers that need not make sense.
-/

namespace TriggerLang.Text

/-- What is wrong with the numbers that are to make a span or a region. -/
inductive RangeError where
  /-- An offset or a length is negative. -/
  | negative (value : Int)
  /-- A span ends before it starts. -/
  | backwardSpan (start stop : Int)
  /-- A line number is less than one. -/
  | lineNotPositive
  /-- A column number is less than one. -/
  | columnNotPositive
  /-- A region ends before it starts. -/
  | backwardRegion
deriving DecidableEq, Repr

/-- The wording of a range error. -/
def RangeError.message : RangeError → String
  | .negative value => s!"TextSize must be non-negative, got {value}"
  | .backwardSpan start stop => s!"Invalid TextRange({start}, {stop})"
  | .lineNotPositive => "SourceRange lines are 1-based"
  | .columnNotPositive => "SourceRange columns are 1-based"
  | .backwardRegion => "SourceRange invariant violated: start > end"

/-- The offsets from `start` up to but not including `stop`. -/
structure Span where
  start : Nat
  stop : Nat
  start_le_stop : start ≤ stop := by omega
deriving DecidableEq, Repr

/-- A number that counts characters. -/
def readSize (value : Int) : Except RangeError Nat :=
  if value < 0 then .error (.negative value) else .ok value.toNat

namespace Span

/-- The span with the given bounds. -/
def ofBounds (start stop : Int) : Except RangeError Span := do
  let start ← readSize start
  let stop ← readSize stop
  if h : start ≤ stop then
    return ⟨start, stop, h⟩
  else
    throw (.backwardSpan start stop)

/-- The span of `length` characters from `start`. -/
def ofLength (start length : Int) : Except RangeError Span := do
  let start ← readSize start
  let length ← readSize length
  return ⟨start, start + length, Nat.le_add_right start length⟩

/-- The span holds the offset. -/
def contains (span : Span) (offset : Nat) : Bool :=
  span.start ≤ offset && offset < span.stop

/-- The part of `text` that the span covers. -/
def slice (span : Span) (text : List Char) : List Char :=
  (text.drop span.start).take (span.stop - span.start)

end Span

end TriggerLang.Text
