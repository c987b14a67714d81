import Mathlib.Data.List.GetD
import TriggerLang.Proofs.Text.Position

/-!
# A table of lines

Instead of walking over a text, a position can be looked up.  A table lists the offsets at which
the lines of the text start, one for each character that ends a line; the line of an offset is the
last one that does not start behind it, and halving the table finds it.  What is found is the
position that walking leads to, so all that is known of positions is known of what the table
answers: it numbers the lines that the text is split into.
-/

namespace TriggerLang.Text

/-! ### Halving -/

/-- The place in an ascending table behind all numbers up to `value`, if it is one from `low` to
`high`. -/
def bisect (table : List Nat) (value low high : Nat) : Nat :=
  if low < high then
    let middle := (low + high) / 2
    if value < table.getD middle 0 then
      bisect table value low middle
    else
      bisect table value (middle + 1) high
  else
    low
termination_by high - low

/-- The numbers of the table up to `value` end somewhere from `low` to `high`. -/
structure Brackets (table : List Nat) (value low high : Nat) : Prop where
  le : low ≤ high
  le_length : high ≤ table.length
  below : ∀ n ∈ table.take low, n ≤ value
  above : ∀ n ∈ table.drop high, value < n

namespace Brackets

variable {table : List Nat} {value low high middle : Nat}

/-- All that stands before a number of an ascending table is smaller, all behind it is greater. -/
theorem of_pairwise (hsorted : table.Pairwise (· < ·)) (hmiddle : middle < table.length) :
  (∀ n ∈ table.take middle, n < table[middle]) ∧ ∀ n ∈ table.drop (middle + 1), table[middle] < n
  := by
  rw [← List.take_append_drop middle table, List.drop_eq_getElem_cons hmiddle,
    List.pairwise_append, List.pairwise_cons] at hsorted
  obtain ⟨-, ⟨hbehind, -⟩, hbefore⟩ := hsorted
  exact ⟨fun n hn => hbefore n hn _ List.mem_cons_self, hbehind⟩

/-- Up to a greater number the place is found before it. -/
theorem lower (h : Brackets table value low high) (hsorted : table.Pairwise (· < ·))
    (hlow : low ≤ middle) (hhigh : middle < high) (hlt : value < table.getD middle 0) :
  Brackets table value low middle
  := by
  have hmiddle : middle < table.length := Nat.lt_of_lt_of_le hhigh h.le_length
  rw [List.getD_eq_getElem _ _ hmiddle] at hlt
  refine ⟨hlow, hmiddle.le, h.below, ?_⟩
  rw [List.drop_eq_getElem_cons hmiddle, List.forall_mem_cons]
  exact ⟨hlt, fun n hn => hlt.trans ((of_pairwise hsorted hmiddle).2 n hn)⟩

/-- From a number that is not greater on the place is found behind it. -/
theorem upper (h : Brackets table value low high) (hsorted : table.Pairwise (· < ·))
    (hhigh : middle < high) (hle : ¬ value < table.getD middle 0) :
  Brackets table value (middle + 1) high
  := by
  have hmiddle : middle < table.length := Nat.lt_of_lt_of_le hhigh h.le_length
  rw [List.getD_eq_getElem _ _ hmiddle, Nat.not_lt] at hle
  refine ⟨hhigh, h.le_length, ?_, h.above⟩
  rw [List.take_succ_eq_append_getElem hmiddle, List.forall_mem_append, List.forall_mem_singleton]
  exact ⟨fun n hn => ((of_pairwise hsorted hmiddle).1 n hn).le.trans hle, hle⟩

/-- The place is the first one if all numbers are greater. -/
theorem eq_zero (h : Brackets table value low low) (hlt : ∀ n ∈ table, value < n) :
  low = 0
  := by
  cases low with
  | zero => rfl
  | succ low =>
    cases table with
    | nil => cases h.le_length
    | cons n table =>
      exact absurd (hlt n List.mem_cons_self) (Nat.not_lt.mpr (h.below n List.mem_cons_self))

theorem tail {n : Nat} (h : Brackets (n :: table) value (low + 1) (low + 1)) :
  Brackets table value low low
  := ⟨Nat.le_refl low, Nat.le_of_succ_le_succ h.le_length,
    fun m hm => h.below m (List.mem_cons_of_mem n hm), h.above⟩

/-- Halving finds the place. -/
theorem bisect (h : Brackets table value low high) (hsorted : table.Pairwise (· < ·)) :
  Brackets table value (bisect table value low high) (bisect table value low high)
  := by
  fun_induction Text.bisect table value low high with
  | case1 low high hlt middle hvalue ih =>
    exact ih (h.lower hsorted (by omega) (by omega) hvalue)
  | case2 low high hlt middle hvalue ih => exact ih (h.upper hsorted (by omega) hvalue)
  | case3 low high hlt =>
    obtain rfl : low = high := Nat.le_antisymm h.le (Nat.not_lt.mp hlt)
    exact h

end Brackets

/-! ### The starts of lines -/

/-- The offsets behind the characters that end a line of a text, which starts at `offset`. -/
def startsFrom (offset : Nat) : List Char → List Nat
  | [] => []
  | c :: rest =>
    if endsLine c rest then
      (offset + 1) :: startsFrom (offset + 1) rest
    else
      startsFrom (offset + 1) rest

theorem lt_of_mem_startsFrom {offset start : Nat} {text : List Char}
    (h : start ∈ startsFrom offset text) :
  offset < start
  := by
  induction text generalizing offset with
  | nil => cases h
  | cons c rest ih =>
    rw [startsFrom] at h
    split at h
    · rcases List.mem_cons.mp h with rfl | h
      · exact Nat.lt_succ_self offset
      · exact (Nat.lt_succ_self offset).trans (ih h)
    · exact (Nat.lt_succ_self offset).trans (ih h)

theorem pairwise_startsFrom (offset : Nat) (text : List Char) :
  (startsFrom offset text).Pairwise (· < ·)
  := by
  induction text generalizing offset with
  | nil => exact .nil
  | cons c rest ih =>
    rw [startsFrom]
    split
    · exact .cons (fun _ => lt_of_mem_startsFrom) (ih (offset + 1))
    · exact ih (offset + 1)

theorem Position.eq_of_line_of_column {p q : Position} (hline : p.line = q.line)
    (hcolumn : p.column = q.column) :
  p = q
  := by
  obtain ⟨line, column, _, _⟩ := p
  obtain rfl := hline
  obtain rfl := hcolumn
  rfl

/-- Walking passes the starts of lines up to where it leads: it leads as many lines down, and in
the last one as many columns to the right as it goes beyond its start. -/
theorem Position.advance_of_brackets {text : List Char} {offset count n : Nat}
    (h : Brackets (startsFrom offset text) (offset + count) n n) (hcount : count ≤ text.length)
    (p : Position) :
  (p.advance text count).line = p.line + n
    ∧ (p.advance text count).column
      = if n = 0 then p.column + count
        else offset + count - (startsFrom offset text).getD (n - 1) 0 + 1
  := by
  induction text generalizing offset count n p with
  | nil =>
    obtain rfl := Nat.le_zero.mp hcount
    obtain rfl := Nat.le_zero.mp h.le_length
    exact ⟨rfl, rfl⟩
  | cons c rest ih =>
    cases count with
    | zero =>
      obtain rfl := h.eq_zero fun _ => lt_of_mem_startsFrom
      exact ⟨rfl, rfl⟩
    | succ count =>
      have hcount' := Nat.le_of_succ_le_succ hcount
      have hvalue : offset + (count + 1) = offset + 1 + count := by omega
      rw [advance, startsFrom, hvalue]
      rw [startsFrom, hvalue] at h
      cases hends : endsLine c rest with
      | false =>
        rw [hends] at h
        obtain ⟨hline, hcolumn⟩ := ih h hcount' p.nextColumn
        refine ⟨hline, hcolumn.trans ?_⟩
        rw [nextColumn, Nat.add_right_comm]
        rfl
      | true =>
        rw [hends, if_pos rfl] at h
        cases n with
        | zero =>
          have habove := h.above (offset + 1) List.mem_cons_self
          omega
        | succ n =>
          obtain ⟨hline, hcolumn⟩ := ih h.tail hcount' p.nextLine
          refine ⟨hline.trans (Nat.add_right_comm p.line 1 n), hcolumn.trans ?_⟩
          cases n with
          | zero =>
            rw [if_pos rfl, if_neg (Nat.succ_ne_zero 0)]
            change 1 + count = offset + 1 + count - (offset + 1) + 1
            omega
          | succ n => rfl

/-! ### Looking positions up -/

/-- The length of a text and the offsets at which its lines start. -/
structure LineIndex where
  length : Nat
  starts : List Nat
deriving DecidableEq, Repr

namespace LineIndex

/-- The table of the lines of a text. -/
def ofText (text : List Char) : LineIndex :=
  ⟨text.length, 0 :: startsFrom 0 text⟩

/-- The number of the last line that does not start behind an offset, counted from zero; offsets
beyond the end of the text stand for its end. -/
def line (index : LineIndex) (offset : Nat) : Nat :=
  bisect index.starts (min offset index.length) 0 index.starts.length - 1

/-- The position of an offset. -/
def position (index : LineIndex) (offset : Nat) : Position where
  line := index.line offset + 1
  column := min offset index.length - index.starts.getD (index.line offset) 0 + 1
  line_pos := Nat.succ_pos _
  column_pos := Nat.succ_pos _

/-- The number of lines. -/
def lineCount (index : LineIndex) : Nat :=
  index.starts.length

/-- The region of a span, unless the positions of its bounds make none. -/
def region (index : LineIndex) (span : Span) : Except RangeError Region :=
  let start := index.position span.start
  let stop := index.position span.stop
  Region.ofInts start.line start.column stop.line stop.column

variable (text : List Char)

theorem pairwise_starts :
  (ofText text).starts.Pairwise (· < ·)
  := .cons (fun _ => lt_of_mem_startsFrom) (pairwise_startsFrom 0 text)

/-- The lines that do not start behind an offset are those up to the line of the offset. -/
theorem brackets_line (offset : Nat) :
  Brackets (ofText text).starts (min offset text.length)
    ((ofText text).line offset + 1) ((ofText text).line offset + 1)
  := by
  have hwhole : Brackets (ofText text).starts (min offset text.length) 0
      (ofText text).starts.length :=
    ⟨Nat.zero_le _, Nat.le_refl _, by simp, by simp⟩
  have hfound := hwhole.bisect (pairwise_starts text)
  have hpos : 0 < bisect (ofText text).starts (min offset text.length) 0
      (ofText text).starts.length := by
    by_contra hzero
    rw [Nat.eq_zero_of_not_pos hzero] at hfound
    exact absurd (hfound.above 0 List.mem_cons_self) (Nat.not_lt_zero _)
  have hline : (ofText text).line offset + 1
      = bisect (ofText text).starts (min offset text.length) 0 (ofText text).starts.length :=
    Nat.sub_add_cancel hpos
  rwa [hline]

/-- The position that is looked up is the one that walking over the text leads to. -/
theorem position_ofText (offset : Nat) :
  (ofText text).position offset = Position.ofOffset text offset
  := by
  have hend : Position.ofOffset text (min offset text.length) = Position.ofOffset text offset := by
    obtain hle | hle := Nat.le_total offset text.length
    · rw [Nat.min_eq_left hle]
    · rw [Nat.min_eq_right hle]
      exact (Position.advance_of_length_le hle Position.origin).symm
  have hstarts : Brackets (startsFrom 0 text) (0 + min offset text.length)
      ((ofText text).line offset) ((ofText text).line offset) := by
    rw [Nat.zero_add]
    exact (brackets_line text offset).tail
  obtain ⟨hline, hcolumn⟩ := Position.advance_of_brackets hstarts (Nat.min_le_right _ _)
    Position.origin
  rw [← hend]
  apply Position.eq_of_line_of_column
  · exact (Nat.add_comm _ 1).trans hline.symm
  · refine Eq.trans ?_ hcolumn.symm
    change min offset text.length - (0 :: startsFrom 0 text).getD ((ofText text).line offset) 0 + 1
      = _
    cases (ofText text).line offset with
    | zero => exact Nat.add_comm _ 1
    | succ n =>
      rw [if_neg n.succ_ne_zero, Nat.zero_add]
      rfl

/-! ### The lines of the table -/

theorem length_startsFrom (offset : Nat) (text : List Char) :
  (startsFrom offset text).length + 1 = (splitLines text).length
  := by
  induction text using lines_induction generalizing offset with
  | nil => rfl
  | pair rest ih =>
    rw [splitLines_pair, List.length_cons, ← ih (offset + 2)]
    rfl
  | ends c rest hends ih =>
    rw [splitLines_of_endsLine hends, List.length_cons, ← ih (offset + 1), startsFrom,
      if_pos hends]
    rfl
  | goesOn c rest hbreak ih =>
    obtain ⟨line, lines, hlines, hsplit⟩ := splitLines_cons hbreak rest
    have hends := endsLine_of_isLineBreak_eq_false hbreak rest
    rw [hsplit, startsFrom, if_neg (Bool.eq_false_iff.mp hends), ih, hlines]
    rfl

/-- A text has as many lines in the table as it is split into. -/
theorem length_starts :
  (ofText text).starts.length = (splitLines text).length
  := length_startsFrom 0 text

/-- The start of a line stands in the table at the number of the line. -/
theorem getElem?_startsFrom {text : List Char} {i start : Nat} (h : ReachesLine text i start)
    (offset : Nat) :
  (offset :: startsFrom offset text)[i]? = some (offset + start)
  := by
  induction h generalizing offset with
  | first text => rfl
  | @pair rest i start _ ih =>
    rw [← Nat.add_assoc, Nat.add_right_comm, ← ih (offset + 2)]
    rfl
  | @ends c rest i start hends _ ih =>
    rw [← Nat.add_assoc, Nat.add_right_comm, ← ih (offset + 1), startsFrom, if_pos hends]
    rfl
  | @goesOn c rest i start hbreak _ ih =>
    have hends := endsLine_of_isLineBreak_eq_false hbreak rest
    rw [← Nat.add_assoc, Nat.add_right_comm, ← ih (offset + 1), startsFrom,
      if_neg (Bool.eq_false_iff.mp hends)]
    rfl

/-- The table lists where the lines start that the text is split into. -/
theorem getElem?_starts_iff {i start : Nat} :
  (ofText text).starts[i]? = some start ↔ StartsLine text i start
  := by
  have hfound : ∀ {k : Nat}, ReachesLine text i k → (ofText text).starts[i]? = some k := by
    intro k hk
    have hk := getElem?_startsFrom hk 0
    rwa [Nat.zero_add] at hk
  constructor
  · intro h
    have hi : i < (splitLines text).length := by
      rw [← length_starts]
      exact (List.getElem?_eq_some_iff.mp h).1
    obtain ⟨k, hk⟩ := ReachesLine.exists_of_lt hi
    obtain rfl : k = start := Option.some_inj.mp ((hfound hk).symm.trans h)
    exact hk.startsLine
  · exact fun h => hfound h.reachesLine

/-- A table numbers the lines of a text as the text is split into them, and later offsets have
later positions up to the end of the text. -/
structure Numbers (index : LineIndex) (text : List Char) : Prop where
  lineCount : index.lineCount = (splitLines text).length
  starts : ∀ {i start : Nat}, index.starts[i]? = some start ↔ StartsLine text i start
  position : ∀ {i start : Nat} {line : List Char}, index.starts[i]? = some start →
    (splitLines text)[i]? = some line →
    ∀ offset, start ≤ offset → offset ≤ start + line.length →
      (index.position offset).line = i + 1
        ∧ (index.position offset).column = offset - start + 1
  strictMono : ∀ {k l : Nat}, k < l → l ≤ text.length → index.position k < index.position l
  beyond : ∀ {k : Nat}, text.length ≤ k → index.position k = index.position text.length
  region : ∀ span : Span, index.region span = .ok (Region.ofSpan text span)

/-- The table of a text numbers its lines, and the positions that are looked up for the bounds of
a span always make a region. -/
theorem numbers_ofText :
  (ofText text).Numbers text
  := by
  constructor
  case lineCount => exact length_starts text
  case starts => exact getElem?_starts_iff text
  case position =>
    intro i start line hstart hline offset
    rw [position_ofText]
    exact ((getElem?_starts_iff text).mp hstart).position hline
  case strictMono =>
    intro k l hlt hle
    rw [position_ofText, position_ofText]
    exact Position.ofOffset_lt_ofOffset hlt hle
  case beyond =>
    intro k hle
    rw [position_ofText, position_ofText]
    exact Position.advance_of_length_le hle Position.origin
  case region =>
    intro span
    rw [region, position_ofText, position_ofText]
    exact Region.ofInts_ofOffset text span

end LineIndex

end TriggerLang.Text
