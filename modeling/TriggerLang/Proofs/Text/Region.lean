import Mathlib.Tactic.Common
import TriggerLang.Proofs.Text.Line
import TriggerLang.Text.Region

/-!
# Regions of a single line

In a text without line breaks the column of an offset is the next number, and all offsets
beyond the end stand for one column.  So a region of such a text marks characters that follow
one another, and it marks the same characters where the text is part of a line.
-/

namespace TriggerLang.Text

theorem Unbroken.of_cons {c : Char} {rest : List Char} (h : Unbroken (c :: rest)) :
  isLineBreak c = false ∧ Unbroken rest
  := ⟨h c List.mem_cons_self, fun d hd => h d (List.mem_cons_of_mem c hd)⟩

theorem Unbroken.of_append {text other : List Char} (h : Unbroken (text ++ other)) :
  Unbroken text ∧ Unbroken other
  := ⟨fun c hc => h c (List.mem_append_left other hc),
    fun c hc => h c (List.mem_append_right text hc)⟩

namespace Position

/-- Walking on is walking over the rest of the text. -/
theorem advance_add (p : Position) (text : List Char) (m n : Nat) :
  p.advance text (m + n) = (p.advance text m).advance (text.drop m) n
  := by
  induction text generalizing p m with
  | nil => cases m <;> cases n <;> rfl
  | cons c rest ih =>
    cases m with
    | zero => rw [Nat.zero_add, List.drop_zero, advance]
    | succ m =>
      rw [Nat.succ_add, advance, advance, List.drop_succ_cons]
      exact ih _ m

/-- Walking over a text without line breaks leads along the line. -/
theorem advance_of_unbroken {text : List Char} (h : Unbroken text) (p : Position) (count : Nat) :
  (p.advance text count).line = p.line
    ∧ (p.advance text count).column = p.column + min count text.length
  := by
  induction text generalizing p count with
  | nil => cases count <;> simp [advance]
  | cons c rest ih =>
    cases count with
    | zero => simp [advance]
    | succ count =>
      obtain ⟨hc, hrest⟩ := h.of_cons
      have hends : endsLine c rest = false := by
        rw [isLineBreak, Bool.or_eq_false_iff] at hc
        rw [endsLine, hc.1, hc.2]
        rfl
      obtain ⟨hline, hcolumn⟩ := ih hrest p.nextColumn count
      rw [advance, hends]
      refine ⟨hline, hcolumn.trans ?_⟩
      change p.column + 1 + min count rest.length = p.column + min (count + 1) (rest.length + 1)
      omega

end Position

namespace Region

/-- A region is known by its lines and columns. -/
theorem eq_of_bounds {r s : Region} (h : r.bounds = s.bounds) :
  r = s
  := by
  obtain ⟨⟨_, _, _, _⟩, ⟨_, _, _, _⟩, _⟩ := r
  obtain ⟨⟨_, _, _, _⟩, ⟨_, _, _, _⟩, _⟩ := s
  simpa [bounds, and_assoc] using h

/-- The region of a span stops at the position of the span's end. -/
theorem ofSpan_stop (text : List Char) (span : Span) :
  (ofSpan text span).stop = Position.ofOffset text span.stop
  := by
  have h := Position.advance_add Position.origin text span.start (span.stop - span.start)
  rw [Nat.add_sub_cancel' span.start_le_stop] at h
  exact h.symm

/-- A span of a text without line breaks is the region of the characters that it covers. -/
theorem ofSpan_eq_onLine {before covered after : List Char}
    (h : Unbroken (before ++ covered ++ after)) {span : Span} (hstart : span.start = before.length)
    {overhang : Nat} (hstop : span.stop = span.start + (covered.length + overhang))
    (hoverhang : overhang ≠ 0 → after = []) :
  ofSpan (before ++ covered ++ after) span = onLine 1 Nat.one_pos before.length covered.length
  := by
  have hdrop : (before ++ covered ++ after).drop span.start = covered ++ after := by
    rw [hstart, List.append_assoc, List.drop_left]
  have hrest : Unbroken (covered ++ after) := by
    rw [List.append_assoc] at h
    exact h.of_append.2
  have hfirst : (Position.ofOffset (before ++ covered ++ after) span.start).line = 1
      ∧ (Position.ofOffset (before ++ covered ++ after) span.start).column
        = 1 + min span.start (before ++ covered ++ after).length :=
    Position.advance_of_unbroken h Position.origin span.start
  have hlast := Position.advance_of_unbroken hrest
    (Position.ofOffset (before ++ covered ++ after) span.start) (span.stop - span.start)
  have hafter : after.length = 0 ∨ overhang = 0 := by
    by_cases hzero : overhang = 0
    · exact .inr hzero
    · exact .inl (by rw [hoverhang hzero, List.length_nil])
  simp only [List.length_append] at hfirst hlast
  apply eq_of_bounds
  simp only [bounds, ofSpan, onLine, hdrop, List.cons.injEq, and_true]
  omega

/-- What lies beyond a text without line breaks is its end. -/
theorem ofSpan_end {text : List Char} (h : Unbroken text) {span : Span}
    (hstart : text.length ≤ span.start) :
  ofSpan text span = onLine 1 Nat.one_pos text.length 0
  := by
  have hdrop : text.drop span.start = [] := List.drop_eq_nil_iff.mpr hstart
  have hnil : Unbroken [] := fun c hc => nomatch hc
  have hfirst : (Position.ofOffset text span.start).line = 1
      ∧ (Position.ofOffset text span.start).column = 1 + min span.start text.length :=
    Position.advance_of_unbroken h Position.origin span.start
  have hlast := Position.advance_of_unbroken hnil (Position.ofOffset text span.start)
    (span.stop - span.start)
  simp only [List.length_nil] at hlast
  apply eq_of_bounds
  simp only [bounds, ofSpan, onLine, hdrop, List.cons.injEq, and_true]
  omega

/-- The same region further down, below `n` other lines. -/
def below (region : Region) (n : Nat) : Region where
  start := ⟨region.start.line + n, region.start.column,
    Nat.add_pos_left region.start.line_pos n, region.start.column_pos⟩
  stop := ⟨region.stop.line + n, region.stop.column,
    Nat.add_pos_left region.stop.line_pos n, region.stop.column_pos⟩
  start_le_stop := by
    have h := Position.le_def.mp region.start_le_stop
    rw [Position.le_def]
    simpa using h

/-- What is placed on a line further down is as far down. -/
theorem place_below (region : Region) {number n : Nat} (number_pos : 0 < number)
    (number_add_pos : 0 < number + n) (indent : Nat) :
  region.place (number + n) number_add_pos indent
    = (region.place number number_pos indent).below n
  := by
  apply eq_of_bounds
  simp only [bounds, place, below, List.cons.injEq, and_true, true_and]
  omega

/-- A region of a text without line breaks is moved to the place of the text in a line. -/
theorem place_onLine {number : Nat} (number_pos : 0 < number) (indent offset length : Nat) :
  (onLine 1 Nat.one_pos offset length).place number number_pos indent
    = onLine number number_pos (indent + offset) length
  := by
  apply eq_of_bounds
  simp only [bounds, place, onLine, isSingleLine, beq_self_eq_true, if_true, Nat.sub_self,
    List.cons.injEq, and_true, true_and]
  omega

end Region

end TriggerLang.Text
