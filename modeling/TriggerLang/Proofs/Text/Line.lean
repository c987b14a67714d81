import Mathlib.Data.List.DropRight
import TriggerLang.Text.Blank
import TriggerLang.Text.Line
import TriggerLang.Text.Word

/-!
# Lines and their margins

Lines that are joined by line feeds are split into the same lines again, provided that they
have no line breaks themselves, and the lines that a text is split into have none.  A text is
trimmed if there is no white space at either end; it is what is left of it when it is trimmed
after white space has been put around it.
-/

namespace TriggerLang.Text

/-! ### Lines -/

/-- The text has no line breaks. -/
def Unbroken (text : List Char) : Prop :=
  ∀ c ∈ text, isLineBreak c = false

theorem Unbroken.append {text other : List Char} (h : Unbroken text) (hother : Unbroken other) :
  Unbroken (text ++ other)
  := by
  intro c hc
  exact (List.mem_append.mp hc).elim (h c) (hother c)

/-- That a text has no line breaks can be computed. -/
theorem unbroken_of_all {text : List Char} (h : (text.all fun c => !isLineBreak c) = true) :
  Unbroken text
  := by
  intro c hc
  simpa using List.all_eq_true.mp h c hc

theorem splitLines_cons {c : Char} (h : isLineBreak c = false) (rest : List Char) :
  ∃ line lines, splitLines rest = line :: lines ∧ splitLines (c :: rest) = (c :: line) :: lines
  := by
  obtain ⟨line, lines, hlines⟩ := List.exists_cons_of_ne_nil (splitLines_ne_nil rest)
  have hc : c ≠ '\r' := by
    rintro rfl
    cases h
  refine ⟨line, lines, hlines, ?_⟩
  rw [splitLines]
  · rw [if_neg (by simp [h]), hlines]
  · exact fun _ hreturn => absurd hreturn hc

/-- The lines of a text have no line breaks. -/
theorem unbroken_of_mem_splitLines {text line : List Char} (h : line ∈ splitLines text) :
  Unbroken line
  := by
  have hnil : Unbroken [] := by
    intro c hc
    cases hc
  fun_induction splitLines text generalizing line with
  | case1 =>
    rw [List.mem_singleton.mp h]
    exact hnil
  | case2 rest ih =>
    rcases List.mem_cons.mp h with rfl | h
    · exact hnil
    · exact ih h
  | case3 c rest _ _ ih =>
    rcases List.mem_cons.mp h with rfl | h
    · exact hnil
    · exact ih h
  | case4 c rest _ _ hrest => exact absurd hrest (splitLines_ne_nil rest)
  | case5 c rest _ hc first others hrest ih =>
    rw [hrest] at ih
    rcases List.mem_cons.mp h with rfl | h
    · intro d hd
      rcases List.mem_cons.mp hd with rfl | hd
      · exact Bool.eq_false_iff.mpr hc
      · exact ih List.mem_cons_self d hd
    · exact ih (List.mem_cons_of_mem _ h)

theorem text_mem_of_mem_numberFrom {number : Nat} {texts : List (List Char)} {line : Line}
    (h : line ∈ numberFrom number texts) :
  line.text ∈ texts
  := by
  induction texts generalizing number with
  | nil => cases h
  | cons text rest ih =>
    rcases List.mem_cons.mp h with rfl | h
    · exact List.mem_cons_self
    · exact List.mem_cons_of_mem _ (ih h)

theorem unbroken_of_mem_numberedLines {text : List Char} {line : Line}
    (h : line ∈ numberedLines text) :
  Unbroken line.text
  := unbroken_of_mem_splitLines (text_mem_of_mem_numberFrom h)

theorem lt_of_mem_numberFrom {number : Nat} {texts : List (List Char)} {line : Line}
    (h : line ∈ numberFrom number texts) :
  number < line.number
  := by
  induction texts generalizing number with
  | nil => cases h
  | cons text rest ih =>
    rcases List.mem_cons.mp h with rfl | h
    · exact Nat.lt_succ_self number
    · exact Nat.lt_of_succ_lt (ih h)

theorem le_of_mem_numberFrom {number : Nat} {texts : List (List Char)} {line : Line}
    (h : line ∈ numberFrom number texts) :
  line.number ≤ number + texts.length
  := by
  induction texts generalizing number with
  | nil => cases h
  | cons text rest ih =>
    rw [List.length_cons]
    rcases List.mem_cons.mp h with rfl | h
    · exact Nat.add_le_add_left (Nat.le_add_left 1 rest.length) number
    · have hle := ih h
      omega

theorem numberFrom_append (number : Nat) (lines others : List (List Char)) :
  numberFrom number (lines ++ others)
    = numberFrom number lines ++ numberFrom (number + lines.length) others
  := by
  induction lines generalizing number with
  | nil => rfl
  | cons line rest ih =>
    rw [List.cons_append, numberFrom, numberFrom, ih, List.length_cons, List.cons_append]
    congr 3
    omega

/-- The same line further down, below `n` other lines. -/
def Line.below (line : Line) (n : Nat) : Line :=
  ⟨line.number + n, line.text, Nat.add_pos_left line.number_pos n⟩

theorem numberFrom_add (number n : Nat) (texts : List (List Char)) :
  numberFrom (number + n) texts = (numberFrom number texts).map (·.below n)
  := by
  induction texts generalizing number with
  | nil => rfl
  | cons text rest ih =>
    have hnumber : number + n + 1 = number + 1 + n := Nat.add_right_comm number n 1
    simp only [numberFrom, List.map_cons, hnumber, ih]
    rfl

/-- The lines before and after a line keep their numbers if the line loses its characters. -/
theorem exists_numberFrom_set {number : Nat} {texts : List (List Char)} {line : Line}
    (h : line ∈ numberFrom number texts) :
  ∃ before after, numberFrom number texts = before ++ line :: after
    ∧ numberFrom number (texts.set (line.number - 1 - number) [])
      = before ++ ⟨line.number, [], line.number_pos⟩ :: after
    ∧ ∀ other ∈ before ++ after, other.number ≠ line.number
  := by
  induction texts generalizing number with
  | nil => cases h
  | cons text rest ih =>
    rcases List.mem_cons.mp h with rfl | h
    · refine ⟨[], numberFrom (number + 1) rest, rfl, ?_, ?_⟩
      · rw [Nat.add_sub_cancel, Nat.sub_self]
        rfl
      · intro other hother
        exact Nat.ne_of_gt (lt_of_mem_numberFrom hother)
    · have hlt := lt_of_mem_numberFrom h
      obtain ⟨before, after, hlines, hset, hne⟩ := ih h
      refine ⟨⟨number + 1, text, Nat.succ_pos number⟩ :: before, after, ?_, ?_, ?_⟩
      · rw [numberFrom, hlines]
        rfl
      · have hplace : line.number - 1 - number = line.number - 1 - (number + 1) + 1 := by omega
        rw [hplace, List.set_cons_succ, numberFrom, hset]
        rfl
      · rw [List.cons_append, List.forall_mem_cons]
        exact ⟨Nat.ne_of_lt hlt, hne⟩

/-- A line is known by its number. -/
theorem eq_of_mem_numberedLines {text : List Char} {line other : Line}
    (h : line ∈ numberedLines text) (hother : other ∈ numberedLines text)
    (hnumber : line.number = other.number) :
  line = other
  := by
  obtain ⟨before, after, hlines, -, hne⟩ := exists_numberFrom_set hother
  rw [numberedLines, hlines, List.mem_append, List.mem_cons] at h
  rcases h with h | h | h
  · exact absurd hnumber (hne line (List.mem_append_left after h))
  · exact h
  · exact absurd hnumber (hne line (List.mem_append_right before h))

/-- A line without line breaks is split off with the line feed after it. -/
theorem splitLines_append {line : List Char} (h : Unbroken line) (rest : List Char) :
  splitLines (line ++ '\n' :: rest) = line :: splitLines rest
  := by
  induction line with
  | nil => rfl
  | cons c line ih =>
    have hline : Unbroken line := fun d hd => h d (List.mem_cons_of_mem _ hd)
    obtain ⟨first, others, hfirst, hsplit⟩ := splitLines_cons (h c List.mem_cons_self)
      (line ++ '\n' :: rest)
    rw [ih hline, List.cons.injEq] at hfirst
    rw [List.cons_append, hsplit, hfirst.1, hfirst.2]

/-- A line feed separates the lines before it from those behind it, unless it belongs to the
carriage return before it. -/
theorem splitLines_append_of_getLast? {text : List Char} (h : text.getLast? ≠ some '\r')
    (rest : List Char) :
  splitLines (text ++ '\n' :: rest) = splitLines text ++ splitLines rest
  := by
  fun_induction splitLines text with
  | case1 => rfl
  | case2 text ih =>
    have hlast : text.getLast? ≠ some '\r' := by
      intro hreturn
      simp [List.getLast?_cons, hreturn] at h
    exact congrArg ([] :: ·) (ih hlast)
  | case3 c text hpair hbreak ih =>
    have hlast : text.getLast? ≠ some '\r' := by
      intro hreturn
      simp [List.getLast?_cons, hreturn] at h
    rw [List.cons_append, splitLines, if_pos hbreak, ih hlast]
    · rfl
    · rintro others rfl hothers
      cases text with
      | nil => exact h rfl
      | cons d text =>
        obtain ⟨rfl, -⟩ := List.cons.inj hothers
        exact hpair text rfl rfl
  | case4 c text _ _ htext => exact absurd htext (splitLines_ne_nil text)
  | case5 c text _ hbreak first others htext ih =>
    have hlast : text.getLast? ≠ some '\r' := by
      intro hreturn
      simp [List.getLast?_cons, hreturn] at h
    obtain ⟨line, lines, hlines, hsplit⟩ :=
      splitLines_cons (Bool.eq_false_iff.mpr hbreak) (text ++ '\n' :: rest)
    rw [ih hlast, htext, List.cons_append, List.cons.injEq] at hlines
    rw [List.cons_append, hsplit, ← hlines.1, ← hlines.2, List.cons_append]

/-- The lines behind a line feed are numbered on from those before it. -/
theorem numberedLines_append {text : List Char} (h : text.getLast? ≠ some '\r')
    (rest : List Char) :
  numberedLines (text ++ '\n' :: rest)
    = numberedLines text ++ (numberedLines rest).map (·.below (splitLines text).length)
  := by
  rw [numberedLines, splitLines_append_of_getLast? h, numberFrom_append, numberFrom_add]
  rfl

theorem splitLines_of_unbroken {line : List Char} (h : Unbroken line) :
  splitLines line = [line]
  := by
  induction line with
  | nil => rfl
  | cons c line ih =>
    have hline : Unbroken line := fun d hd => h d (List.mem_cons_of_mem _ hd)
    obtain ⟨first, others, hfirst, hsplit⟩ := splitLines_cons (h c List.mem_cons_self) line
    rw [ih hline, List.cons.injEq] at hfirst
    rw [hsplit, hfirst.1, ← hfirst.2]

/-- Joined pieces with one more at the end. -/
theorem intercalate_append_singleton {pieces : List (List Char)} (h : pieces ≠ [])
    (separator piece : List Char) :
  separator.intercalate (pieces ++ [piece])
    = separator.intercalate pieces ++ separator ++ piece
  := by
  induction pieces with
  | nil => exact absurd rfl h
  | cons first rest ih =>
    rw [List.cons_append, List.intercalate_cons_of_ne_nil (by simp)]
    by_cases hrest : rest = []
    · simp [hrest]
    · rw [ih hrest, List.intercalate_cons_of_ne_nil hrest]
      simp

theorem intercalate_ne_nil {pieces : List (List Char)} (hne : pieces ≠ [])
    (h : ∀ piece ∈ pieces, piece ≠ []) {separator : List Char} :
  separator.intercalate pieces ≠ []
  := by
  obtain ⟨piece, rest, rfl⟩ := List.exists_cons_of_ne_nil hne
  have hpiece := h piece List.mem_cons_self
  by_cases hrest : rest = []
  · rwa [hrest, List.intercalate_singleton]
  · rw [List.intercalate_cons_of_ne_nil hrest]
    simp [hpiece]

/-- Lines that are joined by line feeds are split again. -/
theorem splitLines_intercalate {lines : List (List Char)} (hne : lines ≠ [])
    (h : ∀ line ∈ lines, Unbroken line) :
  splitLines (['\n'].intercalate lines) = lines
  := by
  induction lines with
  | nil => exact absurd rfl hne
  | cons line rest ih =>
    have hline := h line List.mem_cons_self
    by_cases hrest : rest = []
    · rw [hrest, List.intercalate_singleton, splitLines_of_unbroken hline]
    · rw [List.intercalate_cons_of_ne_nil hrest, List.append_assoc, List.singleton_append,
        splitLines_append hline, ih hrest fun other hother => h other (List.mem_cons_of_mem _ hother)]

/-- Pieces without a separator that are joined by it are split again. -/
theorem splitAt_intercalate {separator : Char} {pieces : List (List Char)} (hne : pieces ≠ [])
    (h : ∀ piece ∈ pieces, separator ∉ piece) :
  splitAt separator ([separator].intercalate pieces) = pieces
  := by
  have hsplit : ∀ (piece rest : List Char) first others, separator ∉ piece →
      splitAt separator rest = first :: others →
      splitAt separator (piece ++ rest) = (piece ++ first) :: others := by
    intro piece rest first others hpiece hrest
    induction piece with
    | nil => exact hrest
    | cons c piece ih =>
      rw [List.mem_cons, not_or] at hpiece
      rw [List.cons_append, splitAt, if_neg (Ne.symm hpiece.1), ih hpiece.2]
      rfl
  induction pieces with
  | nil => exact absurd rfl hne
  | cons piece rest ih =>
    have hpiece := h piece List.mem_cons_self
    by_cases hrest : rest = []
    · have hlast := hsplit piece [] [] [] hpiece rfl
      rw [List.append_nil] at hlast
      rw [hrest, List.intercalate_singleton, hlast]
    · have hsplitRest := ih hrest fun other hother => h other (List.mem_cons_of_mem _ hother)
      have hseparator : splitAt separator (separator :: [separator].intercalate rest)
          = [] :: rest := by
        rw [splitAt, if_pos rfl, hsplitRest]
      have hfirst := hsplit piece _ _ _ hpiece hseparator
      rw [List.append_nil] at hfirst
      rw [List.intercalate_cons_of_ne_nil hrest, List.append_assoc, List.singleton_append, hfirst]

/-! ### Margins -/

theorem isBlank_of_isWordPart {c : Char} (h : isWordPart c = true) :
  isBlank c = false
  := by
  have hall : blankCodes.all (fun n => !isWordPart (Char.ofNat n)) = true := by decide +kernel
  rw [Bool.eq_false_iff]
  intro hblank
  have hc := List.all_eq_true.mp hall c.toNat (List.contains_iff_mem.mp hblank)
  rw [Char.ofNat_toNat, h] at hc
  cases hc

/-- The text has no white space at either end, and is not empty. -/
structure Trimmed (text : List Char) : Prop where
  starts : ∃ c rest, text = c :: rest ∧ isBlank c = false
  ends : ∃ rest c, text = rest ++ [c] ∧ isBlank c = false

theorem Trimmed.ne_nil {text : List Char} (h : Trimmed text) :
  text ≠ []
  := by
  obtain ⟨c, rest, rfl, -⟩ := h.starts
  exact List.cons_ne_nil c rest

theorem trimEnd_eq (text : List Char) :
  trimEnd text = text.rdropWhile isBlank
  := rfl

/-- What is trimmed is trimmed, unless nothing is left. -/
theorem trimmed_trim {text : List Char} (h : trim text ≠ []) :
  Trimmed (trim text)
  := by
  rw [trim, trimEnd_eq] at h ⊢
  constructor
  · obtain ⟨c, rest, hcons⟩ := List.exists_cons_of_ne_nil h
    refine ⟨c, rest, hcons, ?_⟩
    obtain ⟨others, hprefix⟩ := List.rdropWhile_prefix isBlank (trimStart text)
    rw [hcons, List.cons_append] at hprefix
    have hhead : (text.dropWhile isBlank).head? = some c := by
      change (trimStart text).head? = _
      rw [← hprefix]
      rfl
    have hnot := List.head?_dropWhile_not isBlank text
    rw [hhead] at hnot
    simpa using hnot
  · refine ⟨_, _, (List.dropLast_concat_getLast h).symm, ?_⟩
    exact Bool.eq_false_iff.mpr (List.rdropWhile_last_not isBlank _ h)

/-- The margin before a trimmed text is trimmed off. -/
theorem Trimmed.trim_append {text : List Char} (h : Trimmed text) {margin : List Char}
    (hmargin : ∀ c ∈ margin, isBlank c = true) :
  trim (margin ++ text) = text
  := by
  have hstart : trimStart (margin ++ text) = text := by
    obtain ⟨c, rest, rfl, hc⟩ := h.starts
    rw [trimStart, List.dropWhile_append_of_pos hmargin, List.dropWhile_cons_of_neg (by simp [hc])]
  obtain ⟨rest, c, rfl, hc⟩ := h.ends
  rw [trim, hstart, trimEnd_eq, List.rdropWhile_concat_neg _ _ _ (by simp [hc])]

theorem Trimmed.trim_eq {text : List Char} (h : Trimmed text) :
  trim text = text
  := by
  have hmargin : ∀ c ∈ ([] : List Char), isBlank c = true := by simp
  exact h.trim_append hmargin

/-- A text is its indent, what is left of it when it is trimmed, and what follows that. -/
theorem exists_trim_append (text : List Char) :
  ∃ margin rest, text = margin ++ trim text ++ rest ∧ margin.length = indent text
  := by
  obtain ⟨rest, hrest⟩ := List.rdropWhile_prefix isBlank (trimStart text)
  refine ⟨text.takeWhile isBlank, rest, ?_, rfl⟩
  rw [List.append_assoc]
  change _ = _ ++ ((trimStart text).rdropWhile isBlank ++ rest)
  rw [hrest, trimStart, List.takeWhile_append_dropWhile]

/-- Trimming leaves a text without line breaks. -/
theorem Unbroken.trimmed {text : List Char} (h : Unbroken text) :
  Unbroken (trim text)
  := by
  intro c hc
  apply h
  rw [trim, trimEnd_eq] at hc
  exact (List.dropWhile_sublist isBlank).mem ((List.rdropWhile_prefix isBlank _).mem hc)

end TriggerLang.Text
