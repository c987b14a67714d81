import Mathlib.Tactic.Common
import TriggerLang.Diagnostic.Basic
import TriggerLang.Proofs.Text.Region

/-!
# The order of diagnostics

Diagnostics are reported in a linear preorder: by their regions, then by their codes, then by
their messages.  They are sorted stably, so leaving some of them out before they are sorted
or afterwards gives the same list.  Those of lines further down come behind, and are among
themselves in the same order wherever the lines are.
-/

namespace List

variable {α : Type} {le : α → α → Bool}

/-- A list is cut in one way into elements with a property and elements without it. -/
theorem append_inj_of_all {p : α → Bool} {xs ys us vs : List α} (h : xs ++ ys = us ++ vs)
    (hxs : ∀ x ∈ xs, p x = true) (hys : ∀ y ∈ ys, p y = false)
    (hus : ∀ u ∈ us, p u = true) (hvs : ∀ v ∈ vs, p v = false) :
  xs = us ∧ ys = vs
  := by
  have hfilter := congrArg (filter p) h
  rw [filter_append, filter_append, filter_eq_self.mpr hxs, filter_eq_self.mpr hus,
    filter_eq_nil_iff.mpr fun y hy => by simp [hys y hy],
    filter_eq_nil_iff.mpr fun v hv => by simp [hvs v hv], append_nil, append_nil] at hfilter
  exact ⟨hfilter, append_cancel_left (hfilter ▸ h)⟩

section

variable (htrans : ∀ a b c, le a b = true → le b c = true → le a c = true)
  (htotal : ∀ a b, (le a b || le b a) = true)

include htrans htotal

/-- The first element of a list is sorted in before the elements that it does not exceed. -/
theorem exists_mergeSort_cons (x : α) (xs : List α) :
  ∃ before after, (x :: xs).mergeSort le = before ++ x :: after
    ∧ xs.mergeSort le = before ++ after
    ∧ (∀ y ∈ before, (!le x y) = true) ∧ ∀ y ∈ after, (!le x y) = false
  := by
  obtain ⟨before, after, hcons, htail, hbefore⟩ := mergeSort_cons htrans htotal x xs
  refine ⟨before, after, hcons, htail, hbefore, fun y hy => ?_⟩
  have hsorted := pairwise_mergeSort htrans htotal (x :: xs)
  rw [hcons, pairwise_append, pairwise_cons] at hsorted
  rw [hsorted.2.1.1 y hy, Bool.not_true]

/-- Sorting stably and leaving elements out can be done in either order. -/
theorem filter_mergeSort (p : α → Bool) (xs : List α) :
  (xs.mergeSort le).filter p = (xs.filter p).mergeSort le
  := by
  induction xs with
  | nil => simp
  | cons x xs ih =>
    obtain ⟨before, after, hcons, htail, hbefore, hafter⟩ :=
      exists_mergeSort_cons htrans htotal x xs
    rw [hcons, filter_append]
    rw [htail, filter_append] at ih
    by_cases hx : p x = true
    · -- the element stands before the first one that it does not exceed, with or without the
      -- elements that are left out
      obtain ⟨before', after', hcons', htail', hbefore', hafter'⟩ :=
        exists_mergeSort_cons htrans htotal x (xs.filter p)
      obtain ⟨hbefore_eq, hafter_eq⟩ := append_inj_of_all (ih.trans htail')
        (fun y hy => hbefore y (mem_filter.mp hy).1)
        (fun y hy => hafter y (mem_filter.mp hy).1) hbefore' hafter'
      rw [filter_cons_of_pos hx, filter_cons_of_pos hx, hcons', hbefore_eq, hafter_eq]
    · rw [filter_cons_of_neg hx, filter_cons_of_neg hx, ih]

/-- Two lists of which the first does not exceed the second are sorted one after the other. -/
theorem mergeSort_append {xs ys : List α} (h : ∀ x ∈ xs, ∀ y ∈ ys, le x y = true) :
  (xs ++ ys).mergeSort le = xs.mergeSort le ++ ys.mergeSort le
  := by
  induction xs with
  | nil => simp
  | cons x xs ih =>
    obtain ⟨hx, hxs⟩ := forall_mem_cons.mp h
    obtain ⟨before, after, hcons, htail, hbefore, hafter⟩ :=
      exists_mergeSort_cons htrans htotal x (xs ++ ys)
    obtain ⟨before', after', hcons', htail', hbefore', hafter'⟩ :=
      exists_mergeSort_cons htrans htotal x xs
    rw [ih hxs, htail', append_assoc] at htail
    have hlast : ∀ y ∈ after' ++ ys.mergeSort le, (!le x y) = false := by
      rw [forall_mem_append]
      refine ⟨hafter', fun y hy => ?_⟩
      rw [hx y (mem_mergeSort.mp hy), Bool.not_true]
    obtain ⟨hbefore_eq, hafter_eq⟩ := append_inj_of_all htail hbefore' hlast hbefore hafter
    rw [cons_append, hcons, hcons', ← hbefore_eq, ← hafter_eq, append_assoc, cons_append]

end

end List

namespace TriggerLang.Diagnostic

/-- Diagnostics are compared by their regions, then by their codes and messages. -/
theorem le_iff {d e : Diagnostic} :
  d.le e = true ↔ d.region.bounds < e.region.bounds ∨ d.region.bounds = e.region.bounds
    ∧ (d.code < e.code ∨ d.code = e.code ∧ d.message ≤ e.message)
  := by
  rw [Diagnostic.le]
  split
  · rename_i hbounds
    simp only [hbounds, List.lt_irrefl, false_or, true_and]
    simp
  · rename_i hbounds
    rw [Text.Region.le, Bool.not_eq_true', ← Bool.not_eq_true]
    change ¬ e.region.bounds.lex d.region.bounds = true ↔ _
    rw [List.lex_eq_true_iff_lt, List.not_lt, List.le_iff_lt_or_eq]
    simp only [hbounds, false_and, or_false]

theorem le_trans (d e f : Diagnostic) (hde : d.le e = true) (hef : e.le f = true) :
  d.le f = true
  := by
  rw [le_iff] at *
  rcases hde with hde | ⟨hde, hcode⟩ <;> rcases hef with hef | ⟨hef, hcode'⟩
  · exact .inl (List.lt_trans hde hef)
  · exact .inl (hef ▸ hde)
  · exact .inl (hde ▸ hef)
  · refine .inr ⟨hde.trans hef, ?_⟩
    rcases hcode with hcode | ⟨hcode, hmessage⟩ <;>
      rcases hcode' with hcode' | ⟨hcode', hmessage'⟩
    · exact .inl (String.lt_trans hcode hcode')
    · exact .inl (hcode' ▸ hcode)
    · exact .inl (hcode ▸ hcode')
    · exact .inr ⟨hcode.trans hcode', String.le_trans hmessage hmessage'⟩

theorem le_total (d e : Diagnostic) :
  (d.le e || e.le d) = true
  := by
  rw [Bool.or_eq_true, le_iff, le_iff]
  rcases Std.lt_trichotomy d.region.bounds e.region.bounds with h | hbounds | h
  · exact .inl (.inl h)
  · rcases Std.lt_trichotomy d.code e.code with h | hcode | h
    · exact .inl (.inr ⟨hbounds, .inl h⟩)
    · rcases String.le_total d.message e.message with h | h
      · exact .inl (.inr ⟨hbounds, .inr ⟨hcode, h⟩⟩)
      · exact .inr (.inr ⟨hbounds.symm, .inr ⟨hcode.symm, h⟩⟩)
    · exact .inr (.inr ⟨hbounds.symm, .inl h⟩)
  · exact .inr (.inl h)

/-- Leaving diagnostics out does not change the order of the others. -/
theorem filter_sort (p : Diagnostic → Bool) (ds : List Diagnostic) :
  (sort ds).filter p = sort (ds.filter p)
  := List.filter_mergeSort le_trans le_total p ds

/-! ### Diagnostics further down -/

/-- The same diagnostic further down, below `n` other lines. -/
def below (d : Diagnostic) (n : Nat) : Diagnostic :=
  { d with region := d.region.below n }

theorem le_below (d e : Diagnostic) (n : Nat) :
  (d.below n).le (e.below n) = d.le e
  := by
  have hlt : (d.below n).region.bounds < (e.below n).region.bounds
      ↔ d.region.bounds < e.region.bounds := by
    simp [below, Text.Region.bounds, Text.Region.below, List.cons_lt_cons_iff]
  have heq : (d.below n).region.bounds = (e.below n).region.bounds
      ↔ d.region.bounds = e.region.bounds := by
    simp [below, Text.Region.bounds, Text.Region.below]
  rw [Bool.eq_iff_iff, le_iff, le_iff, hlt, heq]
  exact Iff.rfl

theorem sort_map_below (ds : List Diagnostic) (n : Nat) :
  sort (ds.map (·.below n)) = (sort ds).map (·.below n)
  := (List.map_mergeSort fun d _ e _ => (le_below d e n).symm).symm

/-- A diagnostic on an earlier line comes first. -/
theorem le_of_line_lt {d e : Diagnostic} (h : d.region.start.line < e.region.start.line) :
  d.le e = true
  := le_iff.mpr (.inl (.rel h))

/-- The diagnostics of `n` lines come before those of lines below them. -/
theorem sort_append_below {ds es : List Diagnostic} {n : Nat}
    (h : ∀ d ∈ ds, d.region.start.line ≤ n) :
  sort (ds ++ es.map (·.below n)) = sort ds ++ (sort es).map (·.below n)
  := by
  rw [← sort_map_below]
  apply List.mergeSort_append le_trans le_total
  intro d hd e he
  obtain ⟨e, -, rfl⟩ := List.mem_map.mp he
  apply le_of_line_lt
  have hline : (e.below n).region.start.line = e.region.start.line + n := rfl
  have hpos := e.region.start.line_pos
  have hle := h d hd
  omega

end TriggerLang.Diagnostic
