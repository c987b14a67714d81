import Mathlib.Data.List.TakeWhile
import TriggerLang.Proofs.Lexing.Meaning

/-!
# Lexemes before another text

The first terminal of a text stays the same if what follows it is exchanged for a text that
starts alike: with the same character, or with a quote in place of the start of a word.  A
comment is left out, since it takes all of its line.
-/

namespace TriggerLang

/-- The second text starts like the first one, or with a quote where the first one starts with
a word; and where it starts with a point and a digit, so does the first one. -/
structure Alike (rest out : List Char) : Prop where
  head : out.head? = rest.head?
    ∨ (∃ c ∈ rest.head?, Text.isWordStart c = true) ∧ out.head? = some '"'
  fraction : ∀ d others, out = '.' :: d :: others → Text.isDigit d = true →
    ∃ others', rest = '.' :: d :: others'

namespace Alike

variable {rest out : List Char} (h : Alike rest out)

include h

/-- A property that neither words nor quotes start with passes to the other text. -/
theorem head_of {p : Char → Bool} (hquote : p '"' = false)
    (hrest : ∀ c ∈ rest.head?, p c = false) :
  ∀ c ∈ out.head?, p c = false
  := by
  intro c hc
  rcases h.head with hhead | ⟨-, hhead⟩
  · exact hrest c (hhead ▸ hc)
  · rw [hhead] at hc
    cases hc
    exact hquote

/-- Neither text starts with a character that starts no word and is no quote unless the other
one does. -/
theorem head_iff {d : Char} (hword : Text.isWordStart d = false) (hquote : d ≠ '"') :
  out.head? = some d ↔ rest.head? = some d
  := by
  rcases h.head with hhead | ⟨⟨c, hc, hstart⟩, hhead⟩
  · rw [hhead]
  · rw [hhead, Option.mem_def.mp hc]
    constructor
    · rintro ⟨⟩
      exact absurd rfl hquote
    · rintro ⟨⟩
      simp [hword] at hstart

theorem eq_nil (hrest : rest = []) :
  out = []
  := by
  subst hrest
  rcases h.head with hhead | ⟨⟨c, hc, -⟩, -⟩
  · exact List.head?_eq_none_iff.mp hhead
  · cases hc

/-- Texts that start alike do so behind the same text. -/
theorem prepend (before : List Char) :
  Alike (before ++ rest) (before ++ out)
  := by
  cases before with
  | nil => exact h
  | cons c before =>
    constructor
    · exact .inl rfl
    · intro d others hout hdigit
      cases before with
      | nil =>
        obtain ⟨rfl, rfl⟩ := List.cons.inj hout
        have hhead := (h.head_iff (Text.isWordStart_of_isDigit hdigit)
          (Text.ne_of_isDigit hdigit (by decide))).mp rfl
        obtain ⟨others', hrest⟩ := List.head?_eq_some_iff.mp hhead
        exact ⟨others', by rw [hrest]; rfl⟩
      | cons e before =>
        simp only [List.cons_append, List.cons.injEq] at hout
        obtain ⟨rfl, rfl, -⟩ := hout
        exact ⟨before ++ rest, rfl⟩

end Alike

/-- What is taken of a list is followed by an element that is not taken. -/
theorem of_takeWhile_append_eq {α : Type} {p : α → Bool} {xs rest : List α}
    (h : (xs ++ rest).takeWhile p = xs) :
  (∀ x ∈ xs, p x = true) ∧ ∀ x ∈ rest.head?, p x = false
  := by
  induction xs with
  | nil =>
    constructor
    · simp
    · intro x hx
      cases rest with
      | nil => cases hx
      | cons y rest =>
        cases hx
        by_contra hp
        rw [List.nil_append, List.takeWhile_cons, if_pos (Bool.not_eq_false _ ▸ hp)] at h
        cases h
  | cons y ys ih =>
    rw [List.cons_append, List.takeWhile_cons] at h
    split at h
    · rename_i hy
      obtain ⟨hys, hrest⟩ := ih (List.cons.inj h).2
      exact ⟨by simpa [hy] using hys, hrest⟩
    · cases h

/-- Which symbol a text starts with depends on its next character only as far as that can be
the second one of a symbol. -/
theorem Symbol.leading?_congr (c : Char) {rest out : List Char}
    (h : ∀ d ∈ ['=', '&', '|'], out.head? = some d ↔ rest.head? = some d) :
  leading? (c :: out) = leading? (c :: rest)
  := by
  have hsingle : ∀ d ∈ ['=', '&', '|'], [d].isPrefixOf out = [d].isPrefixOf rest := by
    intro d hd
    have hhead : ∀ text : List Char, [d].isPrefixOf text = decide (text.head? = some d) := by
      intro text
      cases text with
      | nil => rfl
      | cons e text =>
        by_cases hde : d = e
        · simp [List.isPrefixOf, hde]
        · simp [List.isPrefixOf, hde, Ne.symm hde]
    rw [hhead, hhead]
    exact decide_eq_decide.mpr (h d hd)
  have hequal := hsingle '=' (by simp)
  have hamp := hsingle '&' (by simp)
  have hpipe := hsingle '|' (by simp)
  have hprefix : ∀ s : Symbol, s.spelling.isPrefixOf (c :: out)
      = s.spelling.isPrefixOf (c :: rest) := by
    intro s
    cases s <;> simp only [spelling, List.isPrefixOf, hequal, hamp, hpipe]
  simp only [leading?, hprefix]

/-- A character that starts no symbol starts none before what no symbol goes on with. -/
theorem Symbol.leading?_eq_none {c : Char} {rest out : List Char}
    (h : leading? (c :: rest) = none) (hout : ∀ d ∈ ['=', '&', '|'], out.head? ≠ some d) :
  leading? (c :: out) = none
  := by
  have hsecond : ∀ d ∈ ['=', '&', '|'], [d].isPrefixOf out = false := by
    intro d hd
    have hne := hout d hd
    cases out with
    | nil => rfl
    | cons e out =>
      have hde : d ≠ e := fun heq => hne (heq ▸ rfl)
      simp [List.isPrefixOf, hde]
  have hequal := hsecond '=' (by simp)
  have hamp := hsecond '&' (by simp)
  have hpipe := hsecond '|' (by simp)
  rw [leading?, List.find?_eq_none] at h ⊢
  intro s hs
  have hrest := h s hs
  cases s <;> simp_all [spelling, List.isPrefixOf]

namespace Lexeme

/-- A string literal that is closed does not depend on what follows it. -/
theorem stringBody_append_of_closed {text : List Char}
    (h : (stringBody text).unterminated = false) (out : List Char) :
  stringBody ((stringBody text).text ++ out) = stringBody text
  := by
  fun_induction stringBody text with
  | case1 => cases h
  | case2 => cases h
  | case3 c rest body ih =>
    have hbody := ih h
    change stringBody ('\\' :: c :: (body.text ++ out)) = _
    rw [stringBody, hbody]
  | case4 => rfl
  | case5 => cases h
  | case6 c rest hend hescape hquote hbreak body ih =>
    have hbody := ih h
    change stringBody (c :: (body.text ++ out)) = _
    rw [stringBody_cons (ne_backslash_of_cases hend hescape), if_neg hquote, if_neg hbreak, hbody]

/-- A string literal that is not closed reaches to the end of its line, and stays the same
if the rest of the text is exchanged but for the line break. -/
theorem stringBody_append_of_unterminated {text : List Char}
    (h : (stringBody text).unterminated = true) :
  text = (stringBody text).text
    ∨ ∃ c rest, Text.isLineBreak c = true ∧ text = (stringBody text).text ++ c :: rest
      ∧ ∀ out, stringBody ((stringBody text).text ++ c :: out) = stringBody text
  := by
  fun_induction stringBody text with
  | case1 => exact .inl rfl
  | case2 => exact .inl rfl
  | case3 c rest body ih =>
    rcases ih h with htext | ⟨d, others, hd, htext, hout⟩
    · exact .inl (congrArg (fun rest => '\\' :: c :: rest) htext)
    · refine .inr ⟨d, others, hd, congrArg (fun rest => '\\' :: c :: rest) htext, fun out => ?_⟩
      change stringBody ('\\' :: c :: (body.text ++ d :: out)) = _
      rw [stringBody, hout]
  | case4 => cases h
  | case5 c rest hend hescape hquote hbreak =>
    refine .inr ⟨c, rest, hbreak, rfl, fun out => ?_⟩
    rw [List.nil_append, stringBody_cons (ne_backslash_of_cases hend hescape), if_neg hquote,
      if_pos hbreak]
  | case6 c rest hend hescape hquote hbreak body ih =>
    rcases ih h with htext | ⟨d, others, hd, htext, hout⟩
    · exact .inl (congrArg (c :: ·) htext)
    · refine .inr ⟨d, others, hd, congrArg (c :: ·) htext, fun out => ?_⟩
      change stringBody (c :: (body.text ++ d :: out)) = _
      rw [stringBody_cons (ne_backslash_of_cases hend hescape), if_neg hquote, if_neg hbreak,
        hout]

variable {c : Char} {u rest out : List Char}

theorem newline_of_alike (halike : Alike rest out) (hbreak : Text.isLineBreak c = true) :
  first c (u ++ out) = first c (u ++ rest)
  := by
  have hhead := (halike.prepend u).head_iff (d := '\n') (by decide) (by decide)
  simp only [first, hbreak, if_true, hhead]

theorem whitespace_of_alike (halike : Alike rest out) (hspace : isSpace c = true)
    (htext : (first c (u ++ rest)).text = c :: u) :
  first c (u ++ out) = first c (u ++ rest)
  := by
  rw [first_of_isSpace hspace] at htext
  obtain ⟨hu, hrest⟩ := of_takeWhile_append_eq (List.cons.inj htext).2
  rw [first_of_isSpace hspace, first_of_isSpace hspace, List.takeWhile_append_of_head hu hrest,
    List.takeWhile_append_of_head hu (halike.head_of (by decide) hrest)]

theorem string_of_alike (halike : Alike rest out)
    (htext : (stringBody (u ++ rest)).text = u) :
  stringBody (u ++ out) = stringBody (u ++ rest)
  := by
  cases hclosed : (stringBody (u ++ rest)).unterminated with
  | false =>
    have hout := stringBody_append_of_closed hclosed out
    rwa [htext] at hout
  | true =>
    rcases stringBody_append_of_unterminated hclosed with hend | ⟨d, others, hd, hend, hout⟩
    · rw [htext] at hend
      have hrest : rest = [] := List.append_right_eq_self.mp hend
      rw [hrest, halike.eq_nil hrest]
    · rw [htext] at hend hout
      have hrest : rest = d :: others := List.append_cancel_left hend
      have hd : Text.isWordStart d = false ∧ d ≠ '"' := by
        rw [Text.isLineBreak, Bool.or_eq_true, beq_iff_eq, beq_iff_eq] at hd
        rcases hd with rfl | rfl <;> decide
      have hhead := (halike.head_iff hd.1 hd.2).mpr (by rw [hrest]; rfl)
      obtain ⟨others', rfl⟩ := List.head?_eq_some_iff.mp hhead
      exact hout others'

theorem identifier_of_alike (halike : Alike rest out) (hword : Text.isWordStart c = true)
    (htext : (first c (u ++ rest)).text = c :: u) :
  first c (u ++ out) = first c (u ++ rest)
  := by
  rw [first_of_isWordStart hword] at htext
  obtain ⟨hu, hrest⟩ := of_takeWhile_append_eq (List.cons.inj htext).2
  rw [first_of_isWordStart hword, first_of_isWordStart hword,
    List.takeWhile_append_of_head hu hrest,
    List.takeWhile_append_of_head hu (halike.head_of (by decide) hrest)]

/-- The text of an integer is what is taken of the digits, and no fraction follows. -/
theorem of_number_integer {text : List Char} (h : (number text).kind = .integer) :
  (number text).text = text.takeWhile Text.isDigit
    ∧ ∀ d others, text.dropWhile Text.isDigit = '.' :: d :: others → Text.isDigit d = false
  := by
  revert h
  simp only [number]
  split
  · rename_i d rest hdrop
    split
    · rintro ⟨⟩
    · rename_i hdigit
      intro _
      refine ⟨rfl, ?_⟩
      intro e others heq
      cases hdrop.symm.trans heq
      exact Bool.eq_false_iff.mpr hdigit
  · rename_i hdrop
    exact fun _ => ⟨rfl, fun d others heq => absurd heq (hdrop d others)⟩

/-- The text of a number with a fraction is digits around a point. -/
theorem of_number_float {text : List Char} (h : (number text).kind ≠ .integer) :
  ∃ d rest, text.dropWhile Text.isDigit = '.' :: d :: rest ∧ Text.isDigit d = true
    ∧ number text = { kind := .float, text := text.takeWhile Text.isDigit ++
      '.' :: d :: rest.takeWhile Text.isDigit }
  := by
  revert h
  simp only [number]
  split
  · rename_i d rest hdrop
    split
    · rename_i hdigit
      exact fun _ => ⟨d, rest, hdrop, hdigit, rfl⟩
    · exact fun h => absurd rfl h
  · exact fun h => absurd rfl h

theorem number_of_alike (halike : Alike rest out) (hdigit : Text.isDigit c = true)
    (htext : (number (c :: u ++ rest)).text = c :: u) :
  (number (c :: u ++ out)).terminal = (number (c :: u ++ rest)).terminal
  := by
  have hterminal : ∀ text : List Char,
      firstTerminal? (c :: u ++ text) = some (number (c :: u ++ text)).terminal := by
    intro text
    rw [List.cons_append, firstTerminal?, first_of_isDigit hdigit]
  have hquote : Text.isDigit '"' = false := by decide
  by_cases hkind : (number (c :: u ++ rest)).kind = .integer
  · obtain ⟨htake, hfraction⟩ := of_number_integer hkind
    obtain ⟨hdigits, hrest⟩ := of_takeWhile_append_eq (htake.symm.trans htext)
    rw [List.dropWhile_append_of_head hdigits hrest] at hfraction
    have hout : ∀ d others, out = '.' :: d :: others → Text.isDigit d = false := by
      intro d others hout
      rw [Bool.eq_false_iff]
      intro hd
      obtain ⟨others', hpoint⟩ := halike.fraction d others hout hd
      rw [hfraction d others' hpoint] at hd
      cases hd
    have hne : c :: u ≠ [] := List.cons_ne_nil c u
    apply Option.some_inj.mp
    rw [← hterminal, ← hterminal, Terminal.firstTerminal?_integer hne hdigits hrest hfraction,
      Terminal.firstTerminal?_integer hne hdigits (halike.head_of hquote hrest) hout]
  · obtain ⟨d, others, hdrop, hd, hnumber⟩ := of_number_float hkind
    generalize hwhole : (c :: u ++ rest).takeWhile Text.isDigit = whole at hnumber
    rw [hnumber] at htext
    have hall : c :: u ++ rest = whole ++ '.' :: d :: others := by
      rw [← hwhole, ← hdrop, List.takeWhile_append_dropWhile]
    have hrest : rest = others.dropWhile Text.isDigit := by
      have hsame : c :: u ++ rest = c :: u ++ others.dropWhile Text.isDigit := by
        rw [hall, ← htext]
        simp [List.takeWhile_append_dropWhile]
      exact List.append_cancel_left hsame
    have hwholeDigits : ∀ e ∈ whole, Text.isDigit e = true :=
      fun e he => List.mem_takeWhile_imp (hwhole ▸ he)
    have hwholeNe : whole ≠ [] := by
      rw [← hwhole, List.cons_append, List.takeWhile_cons_of_pos hdigit]
      exact List.cons_ne_nil _ _
    have hfractionDigits : ∀ e ∈ d :: others.takeWhile Text.isDigit, Text.isDigit e = true := by
      intro e he
      rcases List.mem_cons.mp he with rfl | he
      · exact hd
      · exact List.mem_takeWhile_imp he
    have hhead : ∀ e ∈ rest.head?, Text.isDigit e = false := by
      rw [hrest]
      intro e he
      have hdropped := List.head?_dropWhile_not Text.isDigit others
      rwa [Option.mem_def.mp he] at hdropped
    apply Option.some_inj.mp
    rw [← hterminal, ← hterminal, ← htext,
      Terminal.firstTerminal?_float hwholeNe (List.cons_ne_nil _ _) hwholeDigits hfractionDigits
        hhead,
      Terminal.firstTerminal?_float hwholeNe (List.cons_ne_nil _ _) hwholeDigits hfractionDigits
        (halike.head_of hquote hhead)]

theorem symbol_of_alike (halike : Alike rest out)
    (hc : (Text.isLineBreak c || isSpace c || c == '"' || Text.isDigit c || Text.isWordStart c)
      = false)
    (hcomment : ¬ (c = '/' ∧ (u ++ rest).head? = some '/')) :
  (first c (u ++ out)).terminal = (first c (u ++ rest)).terminal
  := by
  have hhead : ∀ d, Text.isWordStart d = false → d ≠ '"' →
      ((u ++ out).head? = some d ↔ (u ++ rest).head? = some d) :=
    fun d hword hquote => (halike.prepend u).head_iff hword hquote
  have hleading : Symbol.leading? (c :: (u ++ out)) = Symbol.leading? (c :: (u ++ rest)) := by
    apply Symbol.leading?_congr
    intro d hd
    simp only [List.mem_cons, List.not_mem_nil, or_false] at hd
    rcases hd with rfl | rfl | rfl
    · exact hhead _ (by decide) (by decide)
    · exact hhead _ (by decide) (by decide)
    · exact hhead _ (by decide) (by decide)
  simp only [Bool.or_eq_false_iff, beq_eq_false_iff_ne, and_assoc] at hc
  obtain ⟨hbreak, hspace, hquote, hdigit, hword⟩ := hc
  have hcomment' : ¬ (c = '/' ∧ (u ++ out).head? = some '/') := by
    rwa [hhead '/' (by decide) (by decide)]
  simp only [first, hbreak, hspace, hcomment, hcomment', hquote, hdigit, hword, hleading]
  cases Symbol.leading? (c :: (u ++ rest)) <;> rfl

end Lexeme

/-- The first terminal of a text stays the same if what follows it starts alike. -/
theorem firstTerminal?_of_alike {t : Terminal} {rest out : List Char}
    (h : firstTerminal? (t.text ++ rest) = some t) (hcomment : t.kind ≠ .comment)
    (halike : Alike rest out) :
  firstTerminal? (t.text ++ out) = some t
  := by
  obtain ⟨c, u, htext⟩ : ∃ c u, t.text = c :: u := by
    apply List.exists_cons_of_ne_nil
    intro hnil
    rw [hnil, List.nil_append] at h
    cases hrest : rest with
    | nil =>
      rw [hrest] at h
      cases h
    | cons c others =>
      rw [hrest, firstTerminal?, Option.some_inj] at h
      rw [← h] at hnil
      exact Lexeme.first_text_ne_nil c others hnil
  rw [htext] at h ⊢
  rw [List.cons_append, firstTerminal?, Option.some_inj] at h ⊢
  have hfirst : (Lexeme.first c (u ++ rest)).text = c :: u := by rw [← htext, ← h]; rfl
  have hkind : (Lexeme.first c (u ++ rest)).kind ≠ .comment := fun hkind => hcomment (h ▸ hkind)
  rw [← h]
  by_cases hbreak : Text.isLineBreak c = true
  · rw [Lexeme.newline_of_alike halike hbreak]
  have hbreak := Bool.eq_false_iff.mpr hbreak
  by_cases hspace : Lexeme.isSpace c = true
  · rw [Lexeme.whitespace_of_alike halike hspace hfirst]
  have hspace := Bool.eq_false_iff.mpr hspace
  have hslash : ¬ (c = '/' ∧ (u ++ rest).head? = some '/') := by
    intro hslash
    obtain ⟨rfl, hhead⟩ := hslash
    apply hkind
    simp [Lexeme.first, Text.isLineBreak, Lexeme.isSpace, hhead]
  by_cases hquote : c = '"'
  · subst hquote
    rw [Lexeme.first_quote] at hfirst
    rw [Lexeme.first_quote, Lexeme.first_quote,
      Lexeme.string_of_alike halike (List.cons.inj hfirst).2]
  by_cases hdigit : Text.isDigit c = true
  · rw [Lexeme.first_of_isDigit hdigit] at hfirst
    rw [Lexeme.first_of_isDigit hdigit, Lexeme.first_of_isDigit hdigit]
    exact Lexeme.number_of_alike halike hdigit hfirst
  have hdigit := Bool.eq_false_iff.mpr hdigit
  by_cases hword : Text.isWordStart c = true
  · rw [Lexeme.identifier_of_alike halike hword hfirst]
  have hword := Bool.eq_false_iff.mpr hword
  exact Lexeme.symbol_of_alike halike (by simp [hbreak, hspace, hquote, hdigit, hword]) hslash

/-! ### Characters of lexemes -/

theorem Symbol.not_isWordPart_of_mem_spelling (s : Symbol) {d : Char} (h : d ∈ s.spelling) :
  Text.isWordPart d = false
  := by
  have hspelling : s.spelling.any Text.isWordPart = false := by cases s <;> decide
  exact Bool.eq_false_iff.mpr (List.any_eq_false.mp hspelling d h)

namespace Lexeme

variable {c : Char} {others rest : List Char}

/-- No word character follows an identifier. -/
theorem isWordPart_of_first_identifier (hkind : (first c others).kind = .identifier)
    (htext : c :: others = (first c others).text ++ rest) :
  ∀ d ∈ rest.head?, Text.isWordPart d = false
  := by
  rw [first_of_isWordStart (isWordStart_of_first_kind hkind)] at htext
  have hothers : others = others.takeWhile Text.isWordPart ++ rest := (List.cons.inj htext).2
  have htake := congrArg (List.takeWhile Text.isWordPart) hothers
  exact (of_takeWhile_append_eq htake.symm).2

/-- A comment is two slashes and the rest of the line. -/
theorem exists_first_comment (hkind : (first c others).kind = .comment)
    (htext : c :: others = (first c others).text ++ rest) :
  ∃ line, (first c others).text = '/' :: '/' :: line
    ∧ (∀ d ∈ line, Text.isLineBreak d = false) ∧ ∀ d ∈ rest.head?, Text.isLineBreak d = true
  := by
  have hfirst : c = '/' ∧ others.head? = some '/' ∧ first c others
      = { kind := .comment, text := c :: others.takeWhile fun c => !Text.isLineBreak c } := by
    have hview := isFirst_first c others
    generalize first c others = lexeme at hkind hview
    cases hview with
    | comment hslashes => exact ⟨hslashes.1, hslashes.2, rfl⟩
    | string => simp [stringBody_kind] at hkind
    | number => rcases number_kind (c :: others) with h | h <;> simp [h] at hkind
    | _ => cases hkind
  obtain ⟨rfl, hslash, hfirst⟩ := hfirst
  obtain ⟨line, rfl⟩ := List.head?_eq_some_iff.mp hslash
  rw [hfirst] at htext ⊢
  have hline : line = (line.takeWhile fun c => !Text.isLineBreak c) ++ rest := by
    have hcons := (List.cons.inj htext).2
    rw [List.takeWhile_cons_of_pos (by decide)] at hcons
    exact (List.cons.inj hcons).2
  have hboth := of_takeWhile_append_eq
    (congrArg (List.takeWhile fun c => !Text.isLineBreak c) hline).symm
  refine ⟨line.takeWhile fun c => !Text.isLineBreak c, ?_, ?_, ?_⟩
  · rw [List.takeWhile_cons_of_pos (by decide)]
  · intro d hd
    simpa using hboth.1 d hd
  · intro d hd
    simpa using hboth.2 d hd

theorem number_digits {text : List Char} {d : Char} (h : d ∈ (number text).text) :
  Text.isDigit d = true ∨ d = '.'
  := by
  have htake : ∀ rest : List Char, d ∈ rest.takeWhile Text.isDigit → Text.isDigit d = true :=
    fun _ => List.mem_takeWhile_imp
  revert h
  simp only [number]
  split
  · split
    · rename_i hdigit
      simp only [List.mem_append, List.mem_cons]
      rintro (h | rfl | rfl | h)
      · exact .inl (htake _ h)
      · exact .inr rfl
      · exact .inl hdigit
      · exact .inl (htake _ h)
    · exact fun h => .inl (htake _ h)
  · exact fun h => .inl (htake _ h)

/-- What is no word, no string and no comment has word characters only if it is a number or has
been skipped, and then none that words start with. -/
theorem isWordPart_of_first (hstring : (first c others).kind ≠ .string)
    (hidentifier : (first c others).kind ≠ .identifier)
    (hcomment : (first c others).kind ≠ .comment) {d : Char} (hd : d ∈ (first c others).text) :
  Text.isWordPart d = false
    ∨ (first c others).kind ∈ [.integer, .float, .skipped] ∧ Text.isWordStart d = false
  := by
  have hfirst := isFirst_first c others
  generalize first c others = lexeme at hstring hidentifier hcomment hd hfirst ⊢
  cases hfirst with
  | newline hbreak =>
    rw [Text.isLineBreak, Bool.or_eq_true, beq_iff_eq, beq_iff_eq] at hbreak
    apply Or.inl
    dsimp only at hd
    split at hd <;> simp at hd
    · rcases hd with rfl | rfl <;> decide
    · subst hd
      rcases hbreak with rfl | rfl <;> decide
  | whitespace hspace =>
    apply Or.inl
    apply isWordPart_of_isSpace
    rcases List.mem_cons.mp hd with rfl | hd
    · exact hspace
    · exact List.mem_takeWhile_imp hd
  | comment => exact absurd rfl hcomment
  | string => exact absurd (stringBody_kind others) hstring
  | number =>
    rcases number_digits hd with hd | rfl
    · refine .inr ⟨?_, Text.isWordStart_of_isDigit hd⟩
      rcases number_kind (c :: others) with hkind | hkind <;> simp [hkind]
    · exact .inl (by decide)
  | identifier => exact absurd rfl hidentifier
  | @symbol s => exact .inl (s.not_isWordPart_of_mem_spelling hd)
  | skipped hc =>
    rw [List.mem_singleton.mp hd]
    exact .inr ⟨by simp, (Bool.or_eq_false_iff.mp hc).2⟩

/-- What is no word, no string and no comment has no character that words start with. -/
theorem not_isWordStart_of_first (hstring : (first c others).kind ≠ .string)
    (hidentifier : (first c others).kind ≠ .identifier)
    (hcomment : (first c others).kind ≠ .comment) :
  ∀ d ∈ (first c others).text, Text.isWordStart d = false
  := by
  intro d hd
  rcases isWordPart_of_first hstring hidentifier hcomment hd with hpart | ⟨-, hstart⟩
  · rw [Bool.eq_false_iff]
    intro hstart
    rw [Text.isWordPart_of_isWordStart hstart] at hpart
    cases hpart
  · exact hstart

end Lexeme

end TriggerLang
