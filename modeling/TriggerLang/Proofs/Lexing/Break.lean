import TriggerLang.Proofs.Lexing.Place

/-!
# Texts cut between two tokens

Where a text is cut before one of its tokens, the tokens before the cut stay what they are if
another text follows behind a line break or a space.  Only a string that is not closed would go
on over the gap, and so it is closed first.
-/

namespace TriggerLang

/-- The terminal is no string without a closing quote. -/
def Terminal.IsClosed (t : Terminal) : Prop :=
  t.kind = .string → t.unterminated = false

/-- The terminal can end a text: it is neither a skipped character nor a string without a
closing quote. -/
def Terminal.IsWhole (t : Terminal) : Prop :=
  t.kind ≠ .skipped ∧ (t.kind = .string → t.unterminated = false)

/-- The terminal of a line feed. -/
def Terminal.newline : Terminal :=
  ⟨.newline, ['\n'], false⟩

/-! ### A gap behind a terminal -/

/-- The text does not go on with the terminal: it is empty or starts with a line break, or with
a space behind a terminal that takes none. -/
def Terminal.EndsBefore (t : Terminal) (out : List Char) : Prop :=
  ∀ d ∈ out.head?, Text.isLineBreak d = true
    ∨ Lexeme.isSpace d = true ∧ t.kind ≠ .whitespace ∧ t.kind ≠ .comment

theorem Terminal.endsBefore_nil (t : Terminal) :
  t.EndsBefore []
  := by
  rintro d ⟨⟩

theorem Terminal.endsBefore_newline (t : Terminal) (out : List Char) :
  t.EndsBefore ('\n' :: out)
  := by
  rintro d ⟨⟩
  exact .inl rfl

theorem Lexeme.isSpace_of_isLineBreak {c : Char} (h : Text.isLineBreak c = true) :
  isSpace c = false
  := by
  rw [Text.isLineBreak, Bool.or_eq_true, beq_iff_eq, beq_iff_eq] at h
  rcases h with rfl | rfl <;> rfl

/-- What follows a terminal starts with a line break or a space. -/
theorem Terminal.EndsBefore.head_mem {t : Terminal} {out : List Char} (h : t.EndsBefore out) :
  ∀ d ∈ out.head?, d ∈ ['\n', '\r', ' ', '\t']
  := by
  intro d hd
  rcases h d hd with hbreak | ⟨hspace, -⟩
  · rw [Text.isLineBreak, Bool.or_eq_true, beq_iff_eq, beq_iff_eq] at hbreak
    rcases hbreak with rfl | rfl <;> decide
  · rw [Lexeme.isSpace, Bool.or_eq_true, beq_iff_eq, beq_iff_eq] at hspace
    rcases hspace with rfl | rfl <;> decide

theorem Terminal.EndsBefore.head_of {t : Terminal} {out : List Char} (h : t.EndsBefore out)
    {p : Char → Bool} (hp : (['\n', '\r', ' ', '\t'].all fun c => !p c) = true) :
  ∀ d ∈ out.head?, p d = false
  := by
  intro d hd
  simpa using List.all_eq_true.mp hp d (h.head_mem d hd)

theorem Terminal.EndsBefore.head_ne {t : Terminal} {out : List Char} (h : t.EndsBefore out)
    {c : Char} (hc : c ∉ ['\n', '\r', ' ', '\t']) :
  out.head? ≠ some c
  := fun hd => hc (h.head_mem c hd)

/-- A number stays the first terminal of a text if neither a digit nor a fraction follows. -/
theorem firstTerminal?_number_append {c : Char} (h : Text.isDigit c = true) (others : List Char)
    {out : List Char} (hrest : ∀ d ∈ out.head?, Text.isDigit d = false)
    (hpoint : ∀ d rest, out = '.' :: d :: rest → Text.isDigit d = false) :
  firstTerminal? ((Lexeme.number (c :: others)).text ++ out)
    = some (Lexeme.number (c :: others)).terminal
  := by
  have hwholeNe : (c :: others).takeWhile Text.isDigit ≠ [] := by
    rw [List.takeWhile_cons_of_pos h]
    exact List.cons_ne_nil _ _
  have hdigits : ∀ {text : List Char}, ∀ d ∈ text.takeWhile Text.isDigit, Text.isDigit d = true :=
    fun d hd => List.mem_takeWhile_imp hd
  by_cases hkind : (Lexeme.number (c :: others)).kind = .integer
  · obtain ⟨htext, hfraction⟩ := Lexeme.of_number_integer hkind
    have hbehind : ∀ d ∈ ((c :: others).dropWhile Text.isDigit).head?, Text.isDigit d = false := by
      intro d hd
      have hdropped := List.head?_dropWhile_not Text.isDigit (c :: others)
      rwa [Option.mem_def.mp hd] at hdropped
    have hnumber := Terminal.firstTerminal?_integer hwholeNe hdigits hbehind hfraction
    rw [List.takeWhile_append_dropWhile, firstTerminal?, Lexeme.first_of_isDigit h,
      Option.some_inj] at hnumber
    rw [hnumber, htext]
    exact Terminal.firstTerminal?_integer hwholeNe hdigits hrest hpoint
  · obtain ⟨d, rest, -, hd, hnumber⟩ := Lexeme.of_number_float hkind
    rw [hnumber]
    apply Terminal.firstTerminal?_float hwholeNe (List.cons_ne_nil _ _) hdigits _ hrest
    exact List.forall_mem_cons.mpr ⟨hd, hdigits⟩

/-- A terminal stays the first one of a text if what follows does not go on with it. -/
theorem firstTerminal?_append_of_endsBefore {c : Char} {others : List Char}
    (hclosed : (Lexeme.first c others).terminal.IsClosed)
    (hkind : (Lexeme.first c others).kind ≠ .newline) {out : List Char}
    (hends : (Lexeme.first c others).terminal.EndsBefore out) :
  firstTerminal? ((Lexeme.first c others).terminal.text ++ out)
    = some (Lexeme.first c others).terminal
  := by
  have hfirst := Lexeme.isFirst_first c others
  generalize Lexeme.first c others = lexeme at hclosed hkind hends hfirst ⊢
  cases hfirst with
  | newline => exact absurd rfl hkind
  | whitespace hspace =>
    change firstTerminal? (c :: (others.takeWhile Lexeme.isSpace ++ out)) = _
    rw [firstTerminal?, Lexeme.first_of_isSpace hspace, List.takeWhile_append_of_head]
    · exact fun d hd => List.mem_takeWhile_imp hd
    · intro d hd
      rcases hends d hd with hbreak | ⟨-, hne, -⟩
      · exact Lexeme.isSpace_of_isLineBreak hbreak
      · exact absurd rfl hne
  | comment hslashes =>
    obtain ⟨rfl, hslash⟩ := hslashes
    obtain ⟨line, rfl⟩ := List.head?_eq_some_iff.mp hslash
    have hline : ∀ c ∈ line.takeWhile fun c => !Text.isLineBreak c,
        Text.isLineBreak c = false := by
      intro c hc
      simpa using List.mem_takeWhile_imp hc
    apply Terminal.firstTerminal?_comment hline
    intro d hd
    rcases hends d hd with hbreak | ⟨-, -, hne⟩
    · exact hbreak
    · exact absurd rfl hne
  | string hquote =>
    have hclosed := hclosed (Lexeme.stringBody_kind others)
    change firstTerminal? ('"' :: ((Lexeme.stringBody others).text ++ out)) = _
    rw [firstTerminal?, Lexeme.first_quote, Lexeme.stringBody_append_of_closed hclosed]
  | number hdigit =>
    apply firstTerminal?_number_append hdigit others (hends.head_of rfl)
    rintro d rest rfl
    exact absurd rfl (hends.head_ne (c := '.') (by decide))
  | identifier hword =>
    have hname : Text.IsName (c :: others.takeWhile Text.isWordPart) :=
      ⟨c, _, rfl, hword, fun d hd => List.mem_takeWhile_imp hd⟩
    exact hname.firstTerminal? (hends.head_of rfl)
  | @symbol s =>
    apply Terminal.firstTerminal?_symbol
    exact fun _ => ⟨hends.head_ne (by decide), hends.head_ne (by decide)⟩
  | skipped hc hs =>
    have hsecond : ∀ d ∈ ['=', '&', '|'], d ∉ ['\n', '\r', ' ', '\t'] := by simp
    have hout := Symbol.leading?_eq_none hs fun d hd => hends.head_ne (hsecond d hd)
    change firstTerminal? (c :: out) = _
    rw [firstTerminal?, Lexeme.first_of_leading?_eq_none hc hout]

/-! ### Another text behind terminals -/

/-- A text is cut where its terminals are. -/
theorem eq_append_of_terminals {source : List Char} {ts us : List Terminal}
    (h : terminals source = ts ++ us) :
  source = ts.flatMap Terminal.text ++ us.flatMap Terminal.text
  := by
  rw [← List.flatMap_append, ← h, flatMap_text_terminals]

/-- What comes after terminals of a text has the terminals after them. -/
theorem terminals_flatMap_text {source : List Char} {ts us : List Terminal}
    (h : terminals source = ts ++ us) :
  terminals (us.flatMap Terminal.text) = us
  := by
  induction source using lexemes_induction generalizing ts with
  | nil =>
    rw [terminals_nil] at h
    obtain ⟨rfl, rfl⟩ := List.append_eq_nil_iff.mp h.symm
    exact terminals_nil
  | cons c others rest htext ih =>
    cases ts with
    | nil =>
      rw [List.nil_append] at h
      rw [← h, flatMap_text_terminals]
    | cons t ts =>
      rw [terminals_of_first_append htext] at h
      exact ih (List.cons.inj h).2

theorem text_ne_nil_of_mem_terminals {text : List Char} {t : Terminal} (h : t ∈ terminals text) :
  t.text ≠ []
  := by
  obtain ⟨c, rest, rfl⟩ := exists_first_of_mem_terminals h
  exact Lexeme.first_text_ne_nil c rest

/-- Texts that start with the same characters are alike if the second one does not go on with a
digit. -/
theorem alike_append {before : List Char} (hne : before ≠ []) (rest : List Char) {out : List Char}
    (hdigit : ∀ c ∈ out.head?, Text.isDigit c = false) :
  Alike (before ++ rest) (before ++ out)
  := by
  obtain ⟨c, before, rfl⟩ := List.exists_cons_of_ne_nil hne
  constructor
  · exact .inl rfl
  · intro d others hout hd
    cases before with
    | nil =>
      obtain ⟨-, hout⟩ := List.cons.inj hout
      have hhead : d ∈ out.head? := by
        rw [show out = d :: others from hout]
        rfl
      rw [hdigit d hhead] at hd
      cases hd
    | cons e before =>
      simp only [List.cons_append, List.cons.injEq] at hout
      obtain ⟨rfl, rfl, -⟩ := hout
      exact ⟨before ++ rest, rfl⟩

/-- A comment reaches to the end of a text without line breaks. -/
theorem eq_nil_of_first_comment {c : Char} {others rest : List Char}
    (htext : c :: others = (Lexeme.first c others).text ++ rest) (hunbroken : Text.Unbroken rest)
    (hkind : (Lexeme.first c others).kind = .comment) :
  rest = []
  := by
  obtain ⟨-, -, -, hbreak⟩ := Lexeme.exists_first_comment hkind htext
  cases rest with
  | nil => rfl
  | cons d rest =>
    have hd := hbreak d rfl
    rw [hunbroken.of_cons.1] at hd
    cases hd

/-- A terminal of a text without line breaks that is not the last one stays the same if what
follows it is exchanged for a text that starts alike. -/
theorem firstTerminal?_exchange {source : List Char} (hunbroken : Text.Unbroken source)
    {before after : List Terminal} {t u : Terminal}
    (hterminals : terminals source = before ++ t :: u :: after) {out : List Char}
    (halike : Alike ((u :: after).flatMap Terminal.text) out) :
  firstTerminal? (t.text ++ out) = some t
  := by
  induction source using lexemes_induction generalizing before with
  | nil => simp at hterminals
  | cons c others rest htext ih =>
    have hunbroken' : Text.Unbroken rest := (htext ▸ hunbroken).of_append.2
    rw [terminals_of_first_append htext] at hterminals
    cases before with
    | nil =>
      obtain ⟨rfl, hrest⟩ := List.cons.inj hterminals
      rw [← hrest, flatMap_text_terminals] at halike
      apply firstTerminal?_of_alike (firstTerminal?_of_first_append htext) _ halike
      intro hcomment
      rw [eq_nil_of_first_comment htext hunbroken' hcomment, terminals_nil] at hrest
      cases hrest
    | cons first before => exact ih hunbroken' (List.cons.inj hterminals).2

/-- The terminals of a text without line breaks stay the same if what comes after them is
exchanged, as long as the last of them does not go on. -/
theorem terminals_exchange {source : List Char} (hunbroken : Text.Unbroken source)
    {before ts after : List Terminal} (hterminals : terminals source = before ++ ts ++ after)
    {out : List Char} (hdigit : ∀ c ∈ out.head?, Text.isDigit c = false)
    (hlast : ∀ t ∈ ts.getLast?, firstTerminal? (t.text ++ out) = some t) :
  terminals (ts.flatMap Terminal.text ++ out) = ts ++ terminals out
  := by
  induction ts generalizing before with
  | nil => rfl
  | cons t ts ih =>
    have hrest : terminals (ts.flatMap Terminal.text ++ out) = ts ++ terminals out := by
      apply @ih (before ++ [t])
      · simpa using hterminals
      · intro u hu
        apply hlast
        rw [List.getLast?_cons, Option.mem_def.mp hu]
        rfl
    have hfirst : firstTerminal? (t.text ++ (ts.flatMap Terminal.text ++ out)) = some t := by
      cases ts with
      | nil => exact hlast t rfl
      | cons u ts =>
        have hmem : u ∈ terminals source := by simp [hterminals]
        have hne : (u :: ts).flatMap Terminal.text ≠ [] := by
          rw [List.flatMap_cons]
          exact List.append_ne_nil_of_left_ne_nil (text_ne_nil_of_mem_terminals hmem) _
        have hsource : terminals source = before ++ t :: u :: (ts ++ after) := by
          simpa using hterminals
        apply firstTerminal?_exchange hunbroken hsource
        rw [← List.cons_append, List.flatMap_append]
        exact alike_append hne _ hdigit
    rw [List.flatMap_cons, List.append_assoc, terminals_append hfirst, hrest]
    rfl

/-- What starts with the same character as a terminal can be exchanged for it, unless that is one
that a number goes on with. -/
theorem terminals_exchange_of_head {source : List Char} (hunbroken : Text.Unbroken source)
    {ts after : List Terminal} {t : Terminal} (hterminals : terminals source = ts ++ t :: after)
    {c : Char} {inside : List Char} (htext : t.text = c :: inside)
    (hdigit : Text.isDigit c = false) (hpoint : c ≠ '.') (out : List Char) :
  terminals (ts.flatMap Terminal.text ++ c :: out) = ts ++ terminals (c :: out)
  := by
  apply @terminals_exchange source hunbroken [] ts (t :: after) hterminals
  · rintro d ⟨⟩
    exact hdigit
  · intro u hu
    obtain ⟨before, rfl⟩ := List.getLast?_eq_some_iff.mp hu
    have hbefore : terminals source = before ++ u :: t :: after := by simpa using hterminals
    apply firstTerminal?_exchange hunbroken hbefore
    rw [List.flatMap_cons, htext]
    refine ⟨.inl rfl, ?_⟩
    intro d others heq
    exact absurd (List.cons.inj heq).1 hpoint

/-! ### Texts cut between two tokens -/

theorem terminals_newline (out : List Char) :
  terminals ('\n' :: out) = .newline :: terminals out
  := terminals_append (t := .newline) rfl

theorem kind_ne_newline_of_mem_terminals {source : List Char} (hunbroken : Text.Unbroken source)
    {t : Terminal} (h : t ∈ terminals source) :
  t.kind ≠ .newline
  := by
  induction source using lexemes_induction with
  | nil => simp at h
  | cons c others rest htext ih =>
    rw [terminals_of_first_append htext] at h
    rcases List.mem_cons.mp h with rfl | h
    · intro hkind
      have hfirst := Lexeme.isFirst_first c others
      change (Lexeme.first c others).kind = .newline at hkind
      generalize Lexeme.first c others = lexeme at hkind hfirst
      cases hfirst with
      | newline hbreak =>
        rw [hunbroken.of_cons.1] at hbreak
        cases hbreak
      | string => simp [Lexeme.stringBody_kind] at hkind
      | number => rcases Lexeme.number_kind (c :: others) with h | h <;> simp [h] at hkind
      | _ => cases hkind
    · exact ih (htext ▸ hunbroken).of_append.2 h

/-- The terminals at the start of a text without line breaks stay the same before what does not
go on with the last of them. -/
theorem terminals_append_of_endsBefore {source : List Char} (hunbroken : Text.Unbroken source)
    {ts after : List Terminal} (hterminals : terminals source = ts ++ after)
    (hclosed : ∀ t ∈ ts, t.IsClosed) {out : List Char}
    (hends : ∀ t ∈ ts.getLast?, t.EndsBefore out) :
  terminals (ts.flatMap Terminal.text ++ out) = ts ++ terminals out
  := by
  cases hlast : ts.getLast? with
  | none =>
    rw [List.getLast?_eq_none_iff.mp hlast]
    rfl
  | some t =>
    have ht : t ∈ ts := List.mem_of_getLast? hlast
    have hmem : t ∈ terminals source := hterminals ▸ List.mem_append_left after ht
    apply @terminals_exchange source hunbroken [] ts after hterminals
    · exact (hends t hlast).head_of rfl
    · rintro u hu
      obtain rfl : t = u := Option.some_inj.mp (hlast.symm.trans hu)
      have hkind := kind_ne_newline_of_mem_terminals hunbroken hmem
      have hclosed' := hclosed t ht
      have hends' := hends t hlast
      obtain ⟨c, others, rfl⟩ := exists_first_of_mem_terminals hmem
      exact firstTerminal?_append_of_endsBefore hclosed' hkind hends'

theorem terminals_append_newline {source : List Char} (hunbroken : Text.Unbroken source)
    {ts after : List Terminal} (hterminals : terminals source = ts ++ after)
    (hclosed : ∀ t ∈ ts, t.IsClosed) (out : List Char) :
  terminals (ts.flatMap Terminal.text ++ '\n' :: out) = ts ++ .newline :: terminals out
  := by
  rw [← terminals_newline]
  exact terminals_append_of_endsBefore hunbroken hterminals hclosed
    fun t _ => t.endsBefore_newline out

/-- A string that is not closed reaches to the end of a text without line breaks, and is closed
by a quote behind a space, which a backslash may take with it. -/
theorem Lexeme.stringBody_append_quote {text : List Char} (hunbroken : Text.Unbroken text)
    (h : (stringBody text).unterminated = true) (out : List Char) :
  (stringBody (text ++ ' ' :: '"' :: out)).terminal = ⟨.string, text ++ [' ', '"'], false⟩
  := by
  fun_induction stringBody text with
  | case1 => rfl
  | case2 => rfl
  | case3 c rest body ih =>
    have hbody := ih hunbroken.of_cons.2.of_cons.2 h
    simp only [terminal, Terminal.mk.injEq] at hbody
    simp [stringBody, terminal, hbody]
  | case4 => cases h
  | case5 c rest hend hescape hquote hbreak =>
    rw [hunbroken.of_cons.1] at hbreak
    cases hbreak
  | case6 c rest hend hescape hquote hbreak body ih =>
    have hbody := ih hunbroken.of_cons.2 h
    simp only [terminal, Terminal.mk.injEq] at hbody
    rw [List.cons_append, stringBody_cons (ne_backslash_of_cases hend hescape), if_neg hquote,
      if_neg hbreak]
    simp [terminal, hbody]

/-- A text without line breaks that starts with a string that is not closed is that string. -/
theorem eq_of_unterminated {text : List Char} (hunbroken : Text.Unbroken text)
    {t : Terminal} {after : List Terminal} (hterminals : terminals text = t :: after)
    (hkind : t.kind = .string) (hunterminated : t.unterminated = true) :
  ∃ inside, text = '"' :: inside ∧ t.text = '"' :: inside
    ∧ (Lexeme.stringBody inside).unterminated = true
  := by
  cases text with
  | nil => simp at hterminals
  | cons c inside =>
    rw [terminals, lexemes, List.map_cons] at hterminals
    obtain ⟨rfl, -⟩ := List.cons.inj hterminals
    obtain rfl := Lexeme.eq_of_first_kind_string hkind
    have hfirst := Lexeme.first_quote inside
    have hbody : (Lexeme.stringBody inside).unterminated = true := by
      rw [Lexeme.terminal, hfirst] at hunterminated
      exact hunterminated
    refine ⟨inside, rfl, ?_, hbody⟩
    rw [Lexeme.terminal, hfirst]
    rcases Lexeme.stringBody_append_of_unterminated hbody with htext | ⟨d, rest, hd, htext, -⟩
    · exact congrArg ('"' :: ·) htext.symm
    · rw [htext] at hunbroken
      rw [hunbroken.of_cons.2.of_append.2.of_cons.1] at hd
      cases hd

/-- A string that is not closed ends a text without line breaks, and a quote behind a space
closes it and keeps the terminals before it. -/
theorem terminals_append_quote {source : List Char} (hunbroken : Text.Unbroken source)
    {ts after : List Terminal} {t : Terminal} (hterminals : terminals source = ts ++ t :: after)
    (hkind : t.kind = .string) (hunterminated : t.unterminated = true) (out : List Char) :
  terminals (source ++ ' ' :: '"' :: out)
    = ts ++ ⟨.string, t.text ++ [' ', '"'], false⟩ :: terminals out
  := by
  have hsource := eq_append_of_terminals hterminals
  have hlast : Text.Unbroken ((t :: after).flatMap Terminal.text) :=
    (hsource ▸ hunbroken).of_append.2
  obtain ⟨inside, hinside, htext, hbody⟩ :=
    eq_of_unterminated hlast (terminals_flatMap_text hterminals) hkind hunterminated
  have hclosed : firstTerminal? ('"' :: inside ++ [' ', '"'] ++ out)
      = some ⟨.string, '"' :: inside ++ [' ', '"'], false⟩ := by
    have hquote := Lexeme.stringBody_append_quote (hinside ▸ hlast).of_cons.2 hbody out
    simp only [Lexeme.terminal, Terminal.mk.injEq] at hquote
    rw [List.append_assoc, List.cons_append, firstTerminal?, Lexeme.first_quote]
    simp [Lexeme.terminal, hquote]
  have hstring := @terminals_append ⟨.string, '"' :: inside ++ [' ', '"'], false⟩ _ hclosed
  have hexchange : terminals (ts.flatMap Terminal.text ++ ('"' :: inside ++ [' ', '"'] ++ out))
      = ts ++ terminals ('"' :: inside ++ [' ', '"'] ++ out) :=
    terminals_exchange_of_head hunbroken hterminals htext rfl (by decide) _
  have happend : source ++ ' ' :: '"' :: out
      = ts.flatMap Terminal.text ++ ('"' :: inside ++ [' ', '"'] ++ out) := by
    rw [hsource, hinside]
    simp
  rw [happend, hexchange, htext]
  exact congrArg (ts ++ ·) hstring

end TriggerLang
