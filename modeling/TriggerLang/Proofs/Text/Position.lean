import Mathlib.Tactic.Common
import TriggerLang.Proofs.Text.Region

/-!
# Positions and lines

Positions count the characters that end a line, one after the other, with a look at the character
behind a carriage return; the lines of a text are cut at whole line breaks.  Both see the same
lines: a text has as many lines as positions count, and the offsets of a line are numbered by it.
The offset within a line break of two characters is the last one of the line before it.
-/

namespace TriggerLang.Text

/-! ### Ends of lines -/

theorem endsLine_of_isLineBreak_eq_false {c : Char} (h : isLineBreak c = false)
    (rest : List Char) :
  endsLine c rest = false
  := by
  rw [isLineBreak, Bool.or_eq_false_iff] at h
  rw [endsLine, h.1, h.2]
  rfl

/-- A character ends its line if it is one of a line break but not the first one of a pair. -/
theorem endsLine_iff {c : Char} {rest : List Char} :
  endsLine c rest = true
    ↔ isLineBreak c = true ∧ ∀ others, c = '\r' → rest = '\n' :: others → False
  := by
  by_cases hfeed : c = '\n'
  · subst hfeed
    exact iff_of_true rfl ⟨rfl, fun others h => absurd h (by decide)⟩
  by_cases hreturn : c = '\r'
  · subst hreturn
    cases rest <;> simp [endsLine, isLineBreak]
  · simp [endsLine, isLineBreak, hfeed, hreturn]

theorem splitLines_of_endsLine {c : Char} {rest : List Char} (h : endsLine c rest = true) :
  splitLines (c :: rest) = [] :: splitLines rest
  := by
  obtain ⟨hbreak, hpair⟩ := endsLine_iff.mp h
  rw [splitLines, if_pos hbreak]
  exact hpair

theorem splitLines_pair (rest : List Char) :
  splitLines ('\r' :: '\n' :: rest) = [] :: splitLines rest
  := by
  rw [splitLines]

/-- What ends its line does so before any part of what follows it. -/
theorem endsLine_of_isPrefix {c : Char} {rest out : List Char} (h : endsLine c rest = true)
    (hout : out <+: rest) :
  endsLine c out = true
  := by
  obtain ⟨hbreak, hpair⟩ := endsLine_iff.mp h
  obtain ⟨after, rfl⟩ := hout
  refine endsLine_iff.mpr ⟨hbreak, ?_⟩
  rintro others hc rfl
  exact hpair _ hc rfl

/-- A text is gone through from line break to line break: a pair of characters is one, any other
character either ends its line or belongs to it. -/
@[elab_as_elim]
theorem lines_induction {motive : List Char → Prop} (nil : motive [])
    (pair : ∀ rest, motive rest → motive ('\r' :: '\n' :: rest))
    (ends : ∀ c rest, endsLine c rest = true → motive rest → motive (c :: rest))
    (goesOn : ∀ c rest, isLineBreak c = false → motive rest → motive (c :: rest))
    (text : List Char) :
  motive text
  := by
  induction text using splitLines.induct with
  | case1 => exact nil
  | case2 rest ih => exact pair rest ih
  | case3 c rest hpair hbreak ih => exact ends c rest (endsLine_iff.mpr ⟨hbreak, hpair⟩) ih
  | case4 c rest _ _ hrest => exact absurd hrest (splitLines_ne_nil rest)
  | case5 c rest _ hbreak _ _ _ ih => exact goesOn c rest (Bool.eq_false_iff.mpr hbreak) ih

namespace Position

/-- The strict order of the positions of a text: by line, then by column. -/
protected def lt (p q : Position) : Prop :=
  p.line < q.line ∨ p.line = q.line ∧ p.column < q.column

instance : LT Position :=
  ⟨Position.lt⟩

theorem lt_def {p q : Position} :
  p < q ↔ p.line < q.line ∨ p.line = q.line ∧ p.column < q.column
  := Iff.rfl

instance (p q : Position) : Decidable (p < q) :=
  decidable_of_iff _ lt_def.symm

protected theorem lt_of_lt_of_le {p q r : Position} (hpq : p < q) (hqr : q ≤ r) :
  p < r
  := by
  rw [le_def] at hqr
  rw [lt_def] at *
  omega

/-! ### Walking -/

/-- Beyond the end of a text there is nowhere to go. -/
theorem advance_of_length_le {text : List Char} {count : Nat} (h : text.length ≤ count)
    (p : Position) :
  p.advance text count = p.advance text text.length
  := by
  induction text generalizing p count with
  | nil => cases count <;> rfl
  | cons c rest ih =>
    cases count with
    | zero => cases h
    | succ count => exact ih (Nat.le_of_succ_le_succ h) _

/-- Every character leads on. -/
theorem lt_advance {text : List Char} (hne : text ≠ []) {count : Nat} (hcount : 0 < count)
    (p : Position) :
  p < p.advance text count
  := by
  obtain ⟨c, rest, rfl⟩ := List.exists_cons_of_ne_nil hne
  obtain ⟨count, rfl⟩ := Nat.exists_eq_succ_of_ne_zero hcount.ne'
  rw [advance]
  apply Position.lt_of_lt_of_le _ (le_advance _ rest count)
  split
  · exact .inl (Nat.lt_succ_self p.line)
  · exact .inr ⟨rfl, Nat.lt_succ_self p.column⟩

/-- Later offsets have later positions. -/
theorem ofOffset_lt_ofOffset {text : List Char} {k l : Nat} (hlt : k < l) (hl : l ≤ text.length) :
  ofOffset text k < ofOffset text l
  := by
  obtain ⟨count, rfl⟩ := Nat.exists_eq_add_of_lt hlt
  have hne : text.drop k ≠ [] := by
    rw [Ne, List.drop_eq_nil_iff]
    omega
  rw [ofOffset, ofOffset, Nat.add_assoc, advance_add]
  exact lt_advance hne (Nat.succ_pos count) _

/-- Within the line that a text starts with, walking leads along the line. -/
theorem advance_of_isPrefix {line text : List Char} (h : Unbroken line) (hstarts : line <+: text)
    {count : Nat} (hcount : count ≤ line.length) (p : Position) :
  (p.advance text count).line = p.line ∧ (p.advance text count).column = p.column + count
  := by
  obtain ⟨rest, rfl⟩ := hstarts
  induction line generalizing p count with
  | nil =>
    obtain rfl := Nat.le_zero.mp hcount
    simp [advance]
  | cons c line ih =>
    cases count with
    | zero => simp [advance]
    | succ count =>
      obtain ⟨hc, hline⟩ := h.of_cons
      rw [List.cons_append, advance, endsLine_of_isLineBreak_eq_false hc]
      obtain ⟨hnumber, hcolumn⟩ := ih hline (Nat.le_of_succ_le_succ hcount) p.nextColumn
      refine ⟨hnumber, hcolumn.trans ?_⟩
      change p.column + 1 + count = p.column + (count + 1)
      omega

/-- The end of a text is as many lines further down as the text has line breaks. -/
theorem line_advance_length (p : Position) (text : List Char) :
  (p.advance text text.length).line + 1 = p.line + (splitLines text).length
  := by
  induction text using lines_induction generalizing p with
  | nil => rfl
  | pair rest ih =>
    have hrest := ih p.nextColumn.nextLine
    rw [splitLines_pair, List.length_cons]
    exact hrest.trans (Nat.add_right_comm p.line 1 _)
  | ends c rest hends ih =>
    have hrest := ih p.nextLine
    rw [List.length_cons, advance, hends, if_pos rfl, splitLines_of_endsLine hends,
      List.length_cons]
    exact hrest.trans (Nat.add_right_comm p.line 1 _)
  | goesOn c rest hbreak ih =>
    obtain ⟨line, lines, hlines, hsplit⟩ := splitLines_cons hbreak rest
    rw [List.length_cons, advance, endsLine_of_isLineBreak_eq_false hbreak,
      if_neg Bool.false_ne_true, ih, hlines, hsplit]
    rfl

end Position

/-! ### Starts of lines -/

/-- The first line of a text stands at its start. -/
theorem prefix_of_splitLines_eq_cons {text line : List Char} {others : List (List Char)}
    (h : splitLines text = line :: others) :
  line <+: text
  := by
  induction text using lines_induction generalizing line others with
  | nil =>
    obtain ⟨rfl, -⟩ := List.cons.inj h
    exact List.prefix_rfl
  | pair rest =>
    rw [splitLines_pair] at h
    obtain ⟨rfl, -⟩ := List.cons.inj h
    exact List.nil_prefix
  | ends c rest hends =>
    rw [splitLines_of_endsLine hends] at h
    obtain ⟨rfl, -⟩ := List.cons.inj h
    exact List.nil_prefix
  | goesOn c rest hbreak ih =>
    obtain ⟨first, lines, hfirst, hsplit⟩ := splitLines_cons hbreak rest
    rw [hsplit] at h
    obtain ⟨rfl, -⟩ := List.cons.inj h
    exact List.cons_prefix_cons.mpr ⟨rfl, ih hfirst⟩

/-- Only the empty text is a single empty line. -/
theorem eq_nil_of_splitLines_eq {text : List Char} (h : splitLines text = [[]]) :
  text = []
  := by
  cases text using lines_induction with
  | nil => rfl
  | pair rest =>
    rw [splitLines_pair, List.cons.injEq] at h
    exact absurd h.2 (splitLines_ne_nil rest)
  | ends c rest hends =>
    rw [splitLines_of_endsLine hends, List.cons.injEq] at h
    exact absurd h.2 (splitLines_ne_nil rest)
  | goesOn c rest hbreak =>
    obtain ⟨first, lines, -, hsplit⟩ := splitLines_cons hbreak rest
    rw [hsplit] at h
    cases h

/-- Line `i` of the text, counted from zero, starts at an offset: the lines before it end there,
and it is the first of the lines that follow. -/
@[mk_iff]
structure StartsLine (text : List Char) (i start : Nat) : Prop where
  le_length : start ≤ text.length
  before : splitLines (text.take start) = (splitLines text).take i ++ [[]]
  after : splitLines (text.drop start) = (splitLines text).drop i

section

variable {text rest : List Char} {c : Char} {i start : Nat}

/-- The first line, and no other, starts at the start of the text. -/
theorem StartsLine.eq_zero_iff (h : StartsLine text i start) :
  start = 0 ↔ i = 0
  := by
  constructor
  · rintro rfl
    have hbefore : [[]] = (splitLines text).take i ++ [[]] := h.before
    have hnil : (splitLines text).take i = [] := List.append_cancel_right hbefore.symm
    exact (List.take_eq_nil_iff.mp hnil).resolve_right (splitLines_ne_nil text)
  · rintro rfl
    rcases List.take_eq_nil_iff.mp (eq_nil_of_splitLines_eq h.before) with hstart | rfl
    · exact hstart
    · exact Nat.le_zero.mp h.le_length

theorem StartsLine.zero_or_succ (h : StartsLine text i start) :
  (i = 0 ∧ start = 0) ∨ ∃ j k, i = j + 1 ∧ start = k + 1
  := by
  have hzero := h.eq_zero_iff
  cases i <;> cases start <;> simp_all

theorem startsLine_pair_iff :
  StartsLine ('\r' :: '\n' :: rest) (i + 1) (start + 2) ↔ StartsLine rest i start
  := by
  simp only [startsLine_iff, List.length_cons, Nat.add_le_add_iff_right, List.take_succ_cons,
    List.drop_succ_cons, splitLines_pair, List.cons_append, List.cons.injEq, true_and]

theorem startsLine_ends_iff (hends : endsLine c rest = true) :
  StartsLine (c :: rest) (i + 1) (start + 1) ↔ StartsLine rest i start
  := by
  have htake := splitLines_of_endsLine (endsLine_of_isPrefix hends (List.take_prefix start rest))
  simp only [startsLine_iff, List.length_cons, Nat.add_le_add_iff_right, List.take_succ_cons,
    List.drop_succ_cons, htake, splitLines_of_endsLine hends, List.cons_append, List.cons.injEq,
    true_and]

theorem startsLine_goesOn_iff (hbreak : isLineBreak c = false) :
  StartsLine (c :: rest) (i + 1) (start + 1) ↔ StartsLine rest (i + 1) start
  := by
  obtain ⟨line, lines, hlines, hsplit⟩ := splitLines_cons hbreak rest
  obtain ⟨first, others, hothers, htake⟩ := splitLines_cons hbreak (rest.take start)
  simp only [startsLine_iff, List.length_cons, Nat.add_le_add_iff_right, List.take_succ_cons,
    List.drop_succ_cons, hlines, hsplit, hothers, htake, List.cons_append, List.cons.injEq,
    true_and]

/-- No line starts within a line break. -/
theorem not_startsLine_pair_one : ¬ StartsLine ('\r' :: '\n' :: rest) i 1
  := by
  intro h
  -- cut in two, a pair of characters is counted as two line breaks
  have hbefore := congrArg List.length h.before
  have hafter := congrArg List.length h.after
  have hpos := List.length_pos_iff.mpr (splitLines_ne_nil rest)
  have hdrop : splitLines (('\r' :: '\n' :: rest).drop 1) = [] :: splitLines rest :=
    splitLines_of_endsLine rfl
  rw [splitLines_pair, List.take_succ_cons, List.take_zero, splitLines_of_endsLine rfl] at hbefore
  rw [hdrop, splitLines_pair] at hafter
  simp only [splitLines, List.length_append, List.length_take, List.length_drop, List.length_cons,
    List.length_nil] at hbefore hafter
  omega

end

/-- Where lines start, as it is found from the start of the text on. -/
inductive ReachesLine : List Char → Nat → Nat → Prop where
  | first (text : List Char) : ReachesLine text 0 0
  | pair {rest : List Char} {i start : Nat} (h : ReachesLine rest i start) :
    ReachesLine ('\r' :: '\n' :: rest) (i + 1) (start + 2)
  | ends {c : Char} {rest : List Char} {i start : Nat} (hends : endsLine c rest = true)
    (h : ReachesLine rest i start) :
    ReachesLine (c :: rest) (i + 1) (start + 1)
  | goesOn {c : Char} {rest : List Char} {i start : Nat} (hbreak : isLineBreak c = false)
    (h : ReachesLine rest (i + 1) start) :
    ReachesLine (c :: rest) (i + 1) (start + 1)

namespace ReachesLine

variable {text : List Char} {i start : Nat}

/-- Every line of a text is found. -/
theorem exists_of_lt (h : i < (splitLines text).length) :
  ∃ start, ReachesLine text i start
  := by
  induction text using lines_induction generalizing i with
  | nil =>
    obtain rfl := Nat.lt_one_iff.mp h
    exact ⟨0, .first []⟩
  | pair rest ih =>
    rcases i with - | i
    · exact ⟨0, .first _⟩
    rw [splitLines_pair] at h
    obtain ⟨start, hstart⟩ := ih (Nat.lt_of_succ_lt_succ h)
    exact ⟨start + 2, hstart.pair⟩
  | ends c rest hends ih =>
    rcases i with - | i
    · exact ⟨0, .first _⟩
    rw [splitLines_of_endsLine hends] at h
    obtain ⟨start, hstart⟩ := ih (Nat.lt_of_succ_lt_succ h)
    exact ⟨start + 1, hstart.ends hends⟩
  | goesOn c rest hbreak ih =>
    rcases i with - | i
    · exact ⟨0, .first _⟩
    obtain ⟨line, lines, hlines, hsplit⟩ := splitLines_cons hbreak rest
    rw [hsplit] at h
    rw [hlines] at ih
    obtain ⟨start, hstart⟩ := @ih (i + 1) h
    exact ⟨start + 1, hstart.goesOn hbreak⟩

/-- Walking to the start of a line leads to its number, and to its first column. -/
theorem advance (h : ReachesLine text i start) (p : Position) :
  (p.advance text start).line = p.line + i
    ∧ (p.advance text start).column = if i = 0 then p.column else 1
  := by
  induction h generalizing p with
  | first text => cases text <;> exact ⟨rfl, rfl⟩
  | pair _ ih =>
    obtain ⟨hline, hcolumn⟩ := ih p.nextColumn.nextLine
    exact ⟨hline.trans (Nat.add_right_comm p.line 1 _), hcolumn.trans (ite_self 1)⟩
  | ends hends _ ih =>
    obtain ⟨hline, hcolumn⟩ := ih p.nextLine
    rw [Position.advance, hends]
    exact ⟨hline.trans (Nat.add_right_comm p.line 1 _), hcolumn.trans (ite_self 1)⟩
  | goesOn hbreak _ ih =>
    rw [Position.advance, endsLine_of_isLineBreak_eq_false hbreak]
    exact ih p.nextColumn

/-- What is found as the start of a line is one. -/
theorem startsLine (h : ReachesLine text i start) :
  StartsLine text i start
  := by
  induction h with
  | first text => exact ⟨Nat.zero_le text.length, rfl, rfl⟩
  | pair _ ih => exact startsLine_pair_iff.mpr ih
  | ends hends _ ih => exact (startsLine_ends_iff hends).mpr ih
  | goesOn hbreak _ ih => exact (startsLine_goesOn_iff hbreak).mpr ih

end ReachesLine

namespace StartsLine

variable {text : List Char} {i start : Nat}

/-- The start of a line is found. -/
theorem reachesLine (h : StartsLine text i start) :
  ReachesLine text i start
  := by
  induction text using lines_induction generalizing i start with
  | nil =>
    obtain rfl : start = 0 := Nat.le_zero.mp h.le_length
    obtain rfl := h.eq_zero_iff.mp rfl
    exact .first []
  | pair rest ih =>
    obtain ⟨rfl, rfl⟩ | ⟨i, start, rfl, rfl⟩ := h.zero_or_succ
    · exact .first _
    · cases start with
      | zero => exact absurd h not_startsLine_pair_one
      | succ start => exact (ih (startsLine_pair_iff.mp h)).pair
  | ends c rest hends ih =>
    obtain ⟨rfl, rfl⟩ | ⟨i, start, rfl, rfl⟩ := h.zero_or_succ
    · exact .first _
    · exact (ih ((startsLine_ends_iff hends).mp h)).ends hends
  | goesOn c rest hbreak ih =>
    obtain ⟨rfl, rfl⟩ | ⟨i, start, rfl, rfl⟩ := h.zero_or_succ
    · exact .first _
    · exact (ih ((startsLine_goesOn_iff hbreak).mp h)).goesOn hbreak

/-- The offsets of a line, its end among them, have the line's number and follow one another from
its first column. -/
theorem position {line : List Char} (h : StartsLine text i start)
    (hline : (splitLines text)[i]? = some line) {offset : Nat} (hfrom : start ≤ offset)
    (hto : offset ≤ start + line.length) :
  (Position.ofOffset text offset).line = i + 1
    ∧ (Position.ofOffset text offset).column = offset - start + 1
  := by
  obtain ⟨n, rfl⟩ := Nat.exists_eq_add_of_le hfrom
  have hn : n ≤ line.length := Nat.le_of_add_le_add_left hto
  obtain ⟨hnumber, hcolumn⟩ := h.reachesLine.advance Position.origin
  have hdrop : splitLines (text.drop start) = line :: (splitLines text).drop (i + 1) := by
    obtain ⟨hi, rfl⟩ := List.getElem?_eq_some_iff.mp hline
    rw [h.after, List.drop_eq_getElem_cons hi]
  have hunbroken : Unbroken line := unbroken_of_mem_splitLines (hdrop ▸ List.mem_cons_self)
  obtain ⟨hsame, hfurther⟩ := Position.advance_of_isPrefix hunbroken
    (prefix_of_splitLines_eq_cons hdrop) hn (Position.origin.advance text start)
  rw [Position.ofOffset, Position.advance_add, Nat.add_sub_cancel_left]
  constructor
  · rw [hsame, hnumber]
    exact Nat.add_comm 1 i
  · rw [hfurther, hcolumn, Nat.add_comm]
    exact congrArg (n + ·) (ite_self 1)

end StartsLine

/-! ### Numbered lines -/

namespace Region

/-- The lines and columns of a region make the region. -/
theorem ofInts_eq_ok (region : Region) :
  ofInts region.start.line region.start.column region.stop.line region.stop.column = .ok region
  := by
  have hline := And.intro region.start.line_pos region.stop.line_pos
  have hcolumn := And.intro region.start.column_pos region.stop.column_pos
  rw [ofInts, dif_pos (by exact_mod_cast hline), dif_pos (by exact_mod_cast hcolumn)]
  exact dif_pos region.start_le_stop

/-- The positions of a span's bounds make a region, whatever the text. -/
theorem ofInts_ofOffset (text : List Char) (span : Span) :
  ofInts (Position.ofOffset text span.start).line (Position.ofOffset text span.start).column
      (Position.ofOffset text span.stop).line (Position.ofOffset text span.stop).column
    = .ok (ofSpan text span)
  := by
  rw [← ofSpan_stop]
  exact ofInts_eq_ok (ofSpan text span)

end Region

/-- Positions number the lines of a text as the text is split into them, and later offsets have
later positions up to the end of the text. -/
structure NumbersLines (text : List Char) : Prop where
  lineCount : Position.lineCount text = (splitLines text).length
  starts : ∀ i < (splitLines text).length, ∃ start, StartsLine text i start
  position : ∀ {i start : Nat} {line : List Char}, StartsLine text i start →
    (splitLines text)[i]? = some line →
    ∀ offset, start ≤ offset → offset ≤ start + line.length →
      (Position.ofOffset text offset).line = i + 1
        ∧ (Position.ofOffset text offset).column = offset - start + 1
  strictMono : ∀ {k l : Nat}, k < l → l ≤ text.length →
    Position.ofOffset text k < Position.ofOffset text l
  beyond : ∀ {k : Nat}, text.length ≤ k →
    Position.ofOffset text k = Position.ofOffset text text.length
  region : ∀ span : Span,
    Region.ofInts (Position.ofOffset text span.start).line
        (Position.ofOffset text span.start).column (Position.ofOffset text span.stop).line
        (Position.ofOffset text span.stop).column
      = .ok (Region.ofSpan text span)

/-- In every text positions count the lines that the text is split into, a line starts where its
number is reached, and positions grow with the offset.  So a span is always a region. -/
theorem numbersLines (text : List Char) :
  NumbersLines text
  := by
  constructor
  case lineCount =>
    have hlength := Position.line_advance_length Position.origin text
    rw [Nat.add_comm] at hlength
    exact Nat.add_left_cancel hlength
  case starts =>
    intro i hi
    obtain ⟨start, hstart⟩ := ReachesLine.exists_of_lt hi
    exact ⟨start, hstart.startsLine⟩
  case position =>
    intro i start line hstart hline offset
    exact hstart.position hline
  case strictMono => exact Position.ofOffset_lt_ofOffset
  case beyond => exact fun h => Position.advance_of_length_le h Position.origin
  case region => exact Region.ofInts_ofOffset text

/-- Within a line break of two characters a line still goes on. -/
example :
  splitLines "a\r\n\rb".toList = [['a'], [], ['b']]
    ∧ Position.ofOffset "a\r\n\rb".toList 2 = ⟨1, 3, by decide, by decide⟩
    ∧ Position.ofOffset "a\r\n\rb".toList 3 = ⟨2, 1, by decide, by decide⟩
  := by decide

end TriggerLang.Text
