import TriggerLang.Proofs.Lexing.Break

/-!
# The meaning of texts behind a gap

Behind a space a text means what it means by itself, and so do the terminals before the space,
unless the last of them is a comment: then it takes what follows up to the next line break.  A
string that is not closed goes on over the space as well.  So white space between terminals and
a comment behind them mean nothing, as long as neither of the two comes before.
-/

namespace TriggerLang

/-- Where no words stand for literals a text means its significant terminals. -/
theorem meaning_nil_eq_filter (text : List Char) :
  meaning [] text = (terminals text).filter Terminal.isSignificant
  := by
  rw [meaning, substituteAll_nil]

/-- A text means its first terminal first, if that means something. -/
theorem exists_meaning_eq_cons {c : Char} {others : List Char} {t : Terminal}
    (hfirst : (Lexeme.first c others).terminal = t) (h : t.isSignificant = true) :
  ∃ us, meaning [] (c :: others) = t :: us
  := by
  obtain ⟨rest, htext, -⟩ := exists_first_append c others
  refine ⟨meaning [] rest, ?_⟩
  rw [meaning_nil_eq_filter, terminals_of_first_append htext, hfirst, List.filter_cons_of_pos h,
    ← meaning_nil_eq_filter]

/-- White space consists of spaces. -/
theorem isSpace_of_mem_whitespace {source : List Char} {t : Terminal} (h : t ∈ terminals source)
    (hkind : t.kind = .whitespace) :
  ∀ c ∈ t.text, Lexeme.isSpace c = true
  := by
  obtain ⟨c, rest, rfl⟩ := exists_first_of_mem_terminals h
  have hfirst := Lexeme.isFirst_first c rest
  change (Lexeme.first c rest).kind = .whitespace at hkind
  change ∀ d ∈ (Lexeme.first c rest).text, _
  generalize Lexeme.first c rest = lexeme at hkind hfirst
  cases hfirst with
  | whitespace hspace =>
    exact List.forall_mem_cons.mpr ⟨hspace, fun d hd => List.mem_takeWhile_imp hd⟩
  | string => simp [Lexeme.stringBody_kind] at hkind
  | number => rcases Lexeme.number_kind (c :: rest) with h | h <;> simp [h] at hkind
  | _ => cases hkind

/-- A comment is the last terminal of a text without line breaks. -/
theorem eq_nil_of_comment {source : List Char} (hunbroken : Text.Unbroken source)
    {before after : List Terminal} {t : Terminal} (h : terminals source = before ++ t :: after)
    (hkind : t.kind = .comment) :
  after = []
  := by
  induction source using lexemes_induction generalizing before with
  | nil => simp at h
  | cons c others rest htext ih =>
    have hunbroken' : Text.Unbroken rest := (htext ▸ hunbroken).of_append.2
    rw [terminals_of_first_append htext] at h
    cases before with
    | nil =>
      obtain ⟨rfl, rfl⟩ := List.cons.inj h
      rw [eq_nil_of_first_comment htext hunbroken' hkind, terminals_nil]
    | cons first before => exact ih hunbroken' (List.cons.inj h).2

/-- Before a terminal of a text without line breaks there is no comment. -/
theorem ne_comment_of_terminals {source : List Char} (hunbroken : Text.Unbroken source)
    {before after : List Terminal} {t : Terminal} (h : terminals source = before ++ t :: after) :
  ∀ u ∈ before, u.kind ≠ .comment
  := by
  intro u hu hkind
  obtain ⟨first, second, rfl⟩ := List.append_of_mem hu
  have hlast := @eq_nil_of_comment source hunbroken first (second ++ t :: after) u
    (by simpa using h) hkind
  simp at hlast

/-- A comment consists of two slashes and the rest of a line. -/
theorem exists_text_of_mem_comment {source : List Char} {t : Terminal} (h : t ∈ terminals source)
    (hkind : t.kind = .comment) :
  ∃ line, Text.Unbroken line ∧ t.text = '/' :: '/' :: line
  := by
  obtain ⟨c, others, rfl⟩ := exists_first_of_mem_terminals h
  obtain ⟨rest, htext, -⟩ := exists_first_append c others
  obtain ⟨line, hline, hunbroken, -⟩ := Lexeme.exists_first_comment hkind htext
  exact ⟨line, hunbroken, hline⟩

variable {source : List Char} {ts after : List Terminal}

/-- The terminals of a text that come first mean the same by themselves. -/
theorem meaning_flatMap_text (hunbroken : Text.Unbroken source)
    (hterminals : terminals source = ts ++ after) (hclosed : ∀ t ∈ ts, t.IsClosed) :
  meaning [] (ts.flatMap Terminal.text) = ts.filter Terminal.isSignificant
  := by
  have halone := terminals_append_of_endsBefore hunbroken hterminals hclosed
    fun t _ => t.endsBefore_nil
  rw [List.append_nil, terminals_nil, List.append_nil] at halone
  rw [meaning_nil_eq_filter, halone]

/-- Terminals of a text mean the same before white space, and so does what follows. -/
theorem meaning_append_space (hunbroken : Text.Unbroken source)
    (hterminals : terminals source = ts ++ after) (hclosed : ∀ t ∈ ts, t.IsClosed)
    (hcomment : ∀ t ∈ ts, t.kind ≠ .comment) {c : Char} (hspace : Lexeme.isSpace c = true)
    (out : List Char) :
  meaning [] (ts.flatMap Terminal.text ++ c :: out)
    = ts.filter Terminal.isSignificant ++ meaning [] (c :: out)
  := by
  induction ts using List.reverseRecOn generalizing after c out with
  | nil => rfl
  | append_singleton ts t ih =>
    have ht : t ∈ terminals source := by simp [hterminals]
    by_cases hkind : t.kind = .whitespace
    · -- the space is taken by the white space before it
      have hspaces := isSpace_of_mem_whitespace ht hkind
      obtain ⟨d, text, htext⟩ := List.exists_cons_of_ne_nil (text_ne_nil_of_mem_terminals ht)
      have hdropped : meaning [] (t.text ++ c :: out) = meaning [] (c :: out) := by
        rw [← meaning_dropWhile_isSpace, List.dropWhile_append_of_pos hspaces,
          meaning_dropWhile_isSpace]
      have hsignificant : t.isSignificant = false := by
        rw [Terminal.isSignificant, hkind]
        rfl
      have hbefore := @ih (t :: after) (by simp [hterminals])
        (fun u hu => hclosed u (List.mem_append_left _ hu))
        (fun u hu => hcomment u (List.mem_append_left _ hu)) d
        (hspaces d (by rw [htext]; exact List.mem_cons_self)) (text ++ c :: out)
      rw [← List.cons_append, ← htext, hdropped] at hbefore
      rw [List.flatMap_append, List.flatMap_singleton, List.append_assoc, hbefore,
        List.filter_append, List.filter_cons_of_neg (by simp [hsignificant]), List.filter_nil,
        List.append_nil]
    · have hends : ∀ u ∈ (ts ++ [t]).getLast?, u.EndsBefore (c :: out) := by
        intro u hu
        rw [List.getLast?_concat] at hu
        cases hu
        rintro d ⟨⟩
        exact .inr ⟨hspace, hkind, hcomment t (by simp)⟩
      rw [meaning_nil_eq_filter, terminals_append_of_endsBefore hunbroken hterminals hclosed hends,
        List.filter_append, ← meaning_nil_eq_filter]

/-- A string that is not closed is the last terminal of a text without line breaks. -/
theorem eq_nil_of_unterminated {before : List Terminal} {t : Terminal}
    (hunbroken : Text.Unbroken source) (hterminals : terminals source = before ++ t :: after)
    (hkind : t.kind = .string) (hunterminated : t.unterminated = true) :
  after = []
  := by
  have hbehind : Text.Unbroken ((t :: after).flatMap Terminal.text) :=
    (eq_append_of_terminals hterminals ▸ hunbroken).of_append.2
  obtain ⟨inside, htext, ht, -⟩ :=
    eq_of_unterminated hbehind (terminals_flatMap_text hterminals) hkind hunterminated
  rw [List.flatMap_cons, ht] at htext
  have hafter : after.flatMap Terminal.text = [] := List.append_right_eq_self.mp htext
  have hterminals' : terminals source = (before ++ [t]) ++ after := by
    rw [hterminals, List.append_assoc]
    rfl
  rw [← terminals_flatMap_text hterminals', hafter, terminals_nil]

/-- In a text without line breaks only the last terminal goes on with what comes next. -/
theorem forall_of_getLast? (hunbroken : Text.Unbroken source)
    (hterminals : terminals source = ts ++ after)
    (hlast : ∀ t ∈ ts.getLast?, t.kind ≠ .comment ∧ t.IsClosed) :
  ∀ t ∈ ts, t.kind ≠ .comment ∧ t.IsClosed
  := by
  intro t ht
  obtain ⟨before, others, rfl⟩ := List.append_of_mem ht
  have hsplit : terminals source = before ++ t :: (others ++ after) := by
    rw [hterminals, List.append_assoc]
    rfl
  by_contra hgoes
  have hend : others ++ after = [] := by
    by_cases hcomment : t.kind = .comment
    · exact eq_nil_of_comment hunbroken hsplit hcomment
    · have hopen : ¬ t.IsClosed := fun hclosed => hgoes ⟨hcomment, hclosed⟩
      rw [Terminal.IsClosed, not_forall, Bool.not_eq_false] at hopen
      obtain ⟨hkind, hunterminated⟩ := hopen
      exact eq_nil_of_unterminated hunbroken hsplit hkind hunterminated
  obtain ⟨rfl, -⟩ := List.append_eq_nil_iff.mp hend
  exact hgoes (hlast t List.getLast?_concat)

/-- White space between terminals of a text does not change its meaning, unless the one before
it goes on. -/
theorem meaning_insert_spaces (hunbroken : Text.Unbroken source)
    (hterminals : terminals source = ts ++ after)
    (hlast : ∀ t ∈ ts.getLast?, t.kind ≠ .comment ∧ t.IsClosed) {gap : List Char}
    (hgap : ∀ c ∈ gap, Lexeme.isSpace c = true) :
  meaning [] (ts.flatMap Terminal.text ++ (gap ++ after.flatMap Terminal.text))
    = meaning [] source
  := by
  cases gap with
  | nil => exact congrArg (meaning []) (eq_append_of_terminals hterminals).symm
  | cons c gap =>
    have hall := forall_of_getLast? hunbroken hterminals hlast
    have hspaced : meaning [] (c :: gap ++ after.flatMap Terminal.text)
        = meaning [] (after.flatMap Terminal.text) := by
      rw [← meaning_dropWhile_isSpace, List.dropWhile_append_of_pos hgap,
        meaning_dropWhile_isSpace]
    have hsplit := meaning_append_space hunbroken hterminals (fun t ht => (hall t ht).2)
      (fun t ht => (hall t ht).1) (hgap c List.mem_cons_self)
      (gap ++ after.flatMap Terminal.text)
    rw [List.cons_append] at hspaced ⊢
    rw [hsplit, hspaced, meaning_nil_eq_filter, terminals_flatMap_text hterminals,
      ← List.filter_append, ← hterminals, ← meaning_nil_eq_filter]

/-- A comment behind a text and a space does not change its meaning, unless the text ends with a
terminal that goes on. -/
theorem meaning_append_comment (hunbroken : Text.Unbroken source)
    (hlast : ∀ t ∈ (terminals source).getLast?, t.kind ≠ .comment ∧ t.IsClosed)
    {line : List Char} (hline : Text.Unbroken line) :
  meaning [] (source ++ ' ' :: '/' :: '/' :: line) = meaning [] source
  := by
  have hterminals : terminals source = terminals source ++ [] := (List.append_nil _).symm
  have hall := forall_of_getLast? hunbroken hterminals hlast
  have hsplit := meaning_append_space hunbroken hterminals (fun t ht => (hall t ht).2)
    (fun t ht => (hall t ht).1) (show Lexeme.isSpace ' ' = true from rfl) ('/' :: '/' :: line)
  have hcomment : terminals ('/' :: '/' :: line) = [⟨.comment, '/' :: '/' :: line, false⟩] := by
    have hself := @Terminal.terminals_comment line [] hline (by rintro c ⟨⟩)
    rwa [List.append_nil, terminals_nil] at hself
  rw [flatMap_text_terminals, meaning_space, meaning_nil_eq_filter ('/' :: _), hcomment,
    List.filter_cons_of_neg Bool.false_ne_true, List.filter_nil, List.append_nil,
    ← meaning_nil_eq_filter] at hsplit
  exact hsplit

/-- A comment at the end of a text takes what follows up to a line break. -/
theorem meaning_append_line {t : Terminal} (hunbroken : Text.Unbroken source)
    (hterminals : terminals source = ts ++ [t]) (hkind : t.kind = .comment) {line : List Char}
    (hline : Text.Unbroken line) (out : List Char) :
  meaning [] (source ++ (line ++ '\n' :: out))
    = ts.filter Terminal.isSignificant ++ meaning [] out
  := by
  have hmem : t ∈ terminals source := by simp [hterminals]
  obtain ⟨inside, hinside, htext⟩ := exists_text_of_mem_comment hmem hkind
  have hcomment : terminals (t.text ++ (line ++ '\n' :: out))
      = ⟨.comment, '/' :: '/' :: (inside ++ line), false⟩ :: .newline :: terminals out := by
    have hlines := @Terminal.terminals_comment (inside ++ line) ('\n' :: out)
      (hinside.append hline) (by rintro c ⟨⟩; rfl)
    rw [← terminals_newline, htext]
    simpa using hlines
  have hexchange : terminals (ts.flatMap Terminal.text ++ (t.text ++ (line ++ '\n' :: out)))
      = ts ++ terminals (t.text ++ (line ++ '\n' :: out)) := by
    have hhead := terminals_exchange_of_head hunbroken hterminals htext rfl (by decide)
    rw [htext]
    exact hhead _
  have hsource : source = ts.flatMap Terminal.text ++ t.text := by
    rw [eq_append_of_terminals hterminals, List.flatMap_singleton]
  rw [hsource, List.append_assoc, meaning_nil_eq_filter, hexchange, hcomment, List.filter_append,
    List.filter_cons_of_neg Bool.false_ne_true, List.filter_cons_of_neg Bool.false_ne_true,
    ← meaning_nil_eq_filter]

/-- Behind terminals of a text and a space there is room for another text. -/
theorem exists_meaning_append (hunbroken : Text.Unbroken source)
    (hterminals : terminals source = ts ++ after) (hclosed : ∀ t ∈ ts, t.IsClosed)
    {text : List Char} {us : List Terminal} (hline : Text.Unbroken text) (htext : Means [] text us)
    (out : List Char) :
  ∃ rest, meaning [] (ts.flatMap Terminal.text ++ ' ' :: (text ++ rest))
    = ts.filter Terminal.isSignificant ++ (us ++ meaning [] out)
  := by
  have hspaced : meaning [] (text ++ ' ' :: out) = us ++ meaning [] out := by
    rw [htext (' ' :: out) (.space out), meaning_space]
  by_cases hcomment : ∀ t ∈ ts, t.kind ≠ .comment
  · refine ⟨' ' :: out, ?_⟩
    rw [meaning_append_space hunbroken hterminals hclosed hcomment rfl, meaning_space, hspaced]
  · -- the text is written again behind the line of the comment
    simp only [not_forall, not_not] at hcomment
    obtain ⟨t, ht, hkind⟩ := hcomment
    obtain ⟨before, others, rfl⟩ := List.append_of_mem ht
    have hlast := @eq_nil_of_comment source hunbroken before (others ++ after) t
      (by simpa using hterminals) hkind
    obtain ⟨rfl, rfl⟩ := List.append_eq_nil_iff.mp hlast
    rw [List.append_nil] at hterminals
    have hspace : Text.Unbroken (' ' :: text) := by
      intro c hc
      rcases List.mem_cons.mp hc with rfl | hc
      · rfl
      · exact hline c hc
    have hagain := meaning_append_line hunbroken hterminals hkind hspace (text ++ ' ' :: out)
    have hinsignificant : t.isSignificant = false := by
      rw [Terminal.isSignificant, hkind]
      rfl
    refine ⟨'\n' :: (text ++ ' ' :: out), ?_⟩
    rw [← hterminals, flatMap_text_terminals, hterminals, List.filter_append,
      List.filter_cons_of_neg (by simp [hinsignificant]), List.filter_nil, List.append_nil,
      ← hspaced, ← hagain]
    rfl

end TriggerLang
