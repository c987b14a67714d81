import TriggerLang.Proofs.Lexing.Meaning
import TriggerLang.Proofs.Lexing.Stability
import TriggerLang.Script.Substitution

/-!
# The terminals of a text with words replaced

Replacing the bare words of a text by literals does to its terminals what the meaning of the
text says: a word becomes its literal where it stands by itself, and everything else stays as
it is, but for the words in comments.  The text is followed lexeme by lexeme.  A lexeme that is no
word, no string and no comment has no character that a word starts with, so it passes
unchanged, and what has been put in starts with a quote, which goes on with nothing before
it.
-/

namespace TriggerLang.Substitution

/-- The words are identifiers and stand for literals. -/
structure AreBareWords (literals : List (List Char × List Char)) : Prop where
  isName : ∀ entry ∈ literals, Text.IsName entry.1
  quoted : ∀ entry ∈ literals, ∃ value, entry.2 = quote value

variable {literals : List (List Char × List Char)}

/-! ### Words within a text -/

/-- Whether a word character comes before what follows the text. -/
def afterText (afterWord : Bool) (text : List Char) : Bool :=
  text.foldl (fun _ c => Text.isWordPart c) afterWord

theorem afterText_of_ne_nil {text : List Char} (h : text ≠ []) (afterWord : Bool) :
  afterText afterWord text = text.getLast?.any Text.isWordPart
  := by
  rw [← List.dropLast_concat_getLast h, afterText, List.foldl_append]
  simp

theorem afterText_of_isWordPart {text : List Char}
    (h : ∀ c ∈ text, Text.isWordPart c = true) :
  afterText true text = true
  := by
  induction text with
  | nil => rfl
  | cons c text ih =>
    have hc := h c List.mem_cons_self
    rw [afterText, List.foldl_cons, hc]
    exact ih fun d hd => h d (List.mem_cons_of_mem c hd)

/-- No word starts with a character that no identifier starts with. -/
theorem wholeWord?_of_not_isWordStart (hbare : AreBareWords literals) {c : Char}
    (h : Text.isWordStart c = false) (afterWord : Bool) (rest : List Char) :
  wholeWord? literals afterWord (c :: rest) = none
  := by
  rw [wholeWord?]
  split
  · rfl
  · rw [List.find?_eq_none]
    intro entry hentry
    obtain ⟨d, others, hname, hd, -⟩ := hbare.isName entry hentry
    have hne : d ≠ c := by
      rintro rfl
      rw [h] at hd
      cases hd
    simp [hname, List.isPrefixOf, hne]

/-- No word starts within another one. -/
theorem wholeWord?_afterWord {c : Char} (h : Text.isWordPart c = true) (rest : List Char) :
  wholeWord? literals true (c :: rest) = none
  := by
  simp [wholeWord?, startsWithWord, h]

theorem replaceWords_cons {c : Char} {afterWord : Bool} {rest : List Char}
    (h : wholeWord? literals afterWord (c :: rest) = none) :
  replaceWords literals afterWord 0 (c :: rest)
    = c :: replaceWords literals (Text.isWordPart c) 0 rest
  := by
  rw [replaceWords, h]

/-- A text without characters that words start with stays as it is. -/
theorem replaceWords_append (hbare : AreBareWords literals) {text : List Char}
    (h : ∀ c ∈ text, Text.isWordStart c = false) (afterWord : Bool) (rest : List Char) :
  replaceWords literals afterWord 0 (text ++ rest)
    = text ++ replaceWords literals (afterText afterWord text) 0 rest
  := by
  induction text generalizing afterWord with
  | nil => rfl
  | cons c text ih =>
    have hc := wholeWord?_of_not_isWordStart hbare (h c List.mem_cons_self) afterWord
    rw [List.cons_append, replaceWords_cons (hc _),
      ih fun d hd => h d (List.mem_cons_of_mem c hd)]
    rfl

/-- What follows a word character in a word stays as it is. -/
theorem replaceWords_afterWord {text : List Char} (h : ∀ c ∈ text, Text.isWordPart c = true)
    (rest : List Char) :
  replaceWords literals true 0 (text ++ rest) = text ++ replaceWords literals true 0 rest
  := by
  induction text with
  | nil => rfl
  | cons c text ih =>
    have hc := h c List.mem_cons_self
    rw [List.cons_append, replaceWords_cons (wholeWord?_afterWord hc _), hc,
      ih fun d hd => h d (List.mem_cons_of_mem c hd)]
    rfl

/-- The rest of a replaced word is dropped. -/
theorem replaceWords_skip (text rest : List Char) (afterWord : Bool) :
  replaceWords literals afterWord text.length (text ++ rest)
    = replaceWords literals (afterText afterWord text) 0 rest
  := by
  induction text generalizing afterWord with
  | nil => rfl
  | cons c text ih =>
    rw [List.length_cons, List.cons_append, replaceWords, ih]
    rfl

/-- A word that a text starts with as a whole word is the one that it starts with. -/
theorem isWhole_eq {v w rest : List Char} (hv : Text.IsName v) (hw : Text.IsName w)
    (hrest : ∀ c ∈ rest.head?, Text.isWordPart c = false) :
  (v.isPrefixOf (w ++ rest) && v.getLast?.any Text.isWordPart
    != startsWithWord ((w ++ rest).drop v.length)) = decide (v = w)
  := by
  have hlast : v.getLast?.any Text.isWordPart = true := by
    rw [List.getLast?_eq_some_getLast hv.ne_nil]
    exact hv.isWordPart _ (List.getLast_mem hv.ne_nil)
  rw [Bool.eq_iff_iff, Bool.and_eq_true, List.isPrefixOf_iff_prefix, hlast, bne_iff_ne,
    decide_eq_true_eq]
  constructor
  · rintro ⟨hstarts, hwhole⟩
    rcases List.prefix_or_prefix_of_prefix hstarts (List.prefix_append w rest) with h | h
    · obtain ⟨u, rfl⟩ := h
      cases u with
      | nil => rw [List.append_nil]
      | cons c u =>
        have hc := hw.isWordPart c (by simp)
        simp [startsWithWord, hc] at hwhole
    · obtain ⟨u, rfl⟩ := h
      cases u with
      | nil => rw [List.append_nil]
      | cons c u =>
        have hhead : c ∈ rest.head? := by
          obtain ⟨others, hothers⟩ := (List.prefix_append_right_inj w).mp hstarts
          rw [← hothers]
          rfl
        have hc := hv.isWordPart c (by simp)
        rw [hrest c hhead] at hc
        cases hc
  · rintro rfl
    constructor
    · exact List.prefix_append v rest
    · rw [List.drop_left, startsWithWord]
      cases hhead : rest.head? with
      | none => simp
      | some c => simp [hrest c hhead]

/-- At the start of a word exactly that word can be replaced. -/
theorem wholeWord?_name (hbare : AreBareWords literals) {w rest : List Char}
    (hw : Text.IsName w) (hrest : ∀ c ∈ rest.head?, Text.isWordPart c = false) :
  wholeWord? literals false (w ++ rest) = (literals.lookup w).map fun literal => (w, literal)
  := by
  have hstart : (startsWithWord (w ++ rest) == false) = false := by
    obtain ⟨c, others, rfl, hc, -⟩ := hw
    simp [startsWithWord, Text.isWordPart_of_isWordStart hc]
  have hnames := hbare.isName
  rw [wholeWord?, hstart]
  clear hbare hstart
  induction literals with
  | nil => rfl
  | cons entry literals ih =>
    obtain ⟨v, literal⟩ := entry
    have hwhole := isWhole_eq (hnames (v, literal) List.mem_cons_self) hw hrest
    have ih := ih fun entry hentry => hnames entry (List.mem_cons_of_mem _ hentry)
    simp only [Bool.false_eq_true, if_false] at ih ⊢
    rw [List.find?_cons, hwhole, ih, List.lookup_cons]
    by_cases hvw : v = w
    · simp [hvw]
    · rw [beq_eq_false_iff_ne.mpr (Ne.symm hvw)]
      simp [hvw]

/-- A word that stands for a literal is replaced by it, and any other word stays. -/
theorem replaceWords_name (hbare : AreBareWords literals) {w rest : List Char}
    (hw : Text.IsName w) (hrest : ∀ c ∈ rest.head?, Text.isWordPart c = false) :
  replaceWords literals false 0 (w ++ rest)
    = (literals.lookup w).getD w ++ replaceWords literals true 0 rest
  := by
  have hwhole := wholeWord?_name hbare hw hrest
  obtain ⟨c, others, rfl, hc, hothers⟩ := hw
  have hpart := Text.isWordPart_of_isWordStart hc
  cases hlookup : literals.lookup (c :: others) with
  | none =>
    rw [hlookup, List.cons_append] at hwhole
    rw [List.cons_append, replaceWords_cons hwhole, hpart, replaceWords_afterWord hothers]
    rfl
  | some literal =>
    rw [hlookup, List.cons_append] at hwhole
    rw [List.cons_append, replaceWords, hwhole]
    simp only [Option.map_some, List.length_cons, Nat.add_sub_cancel, hpart]
    rw [replaceWords_skip, afterText_of_isWordPart hothers]
    rfl

/-- Whether a word character comes before a text only matters to a word at its start. -/
theorem replaceWords_of_head (hbare : AreBareWords literals) {rest : List Char}
    (hrest : ∀ c ∈ rest.head?, Text.isWordStart c = false) (afterWord other : Bool) :
  replaceWords literals afterWord 0 rest = replaceWords literals other 0 rest
  := by
  cases rest with
  | nil => rfl
  | cons c rest =>
    have hc := wholeWord?_of_not_isWordStart hbare (hrest c rfl)
    rw [replaceWords_cons (hc afterWord rest), replaceWords_cons (hc other rest)]

/-- A word that a line goes on with ends within the line. -/
theorem length_le_of_isPrefixOf {w text rest : List Char} (hw : Text.IsName w)
    (hrest : ∀ c ∈ rest.head?, Text.isLineBreak c = true)
    (h : w.isPrefixOf (text ++ rest) = true) :
  w.length ≤ text.length
  := by
  have hprefix := List.isPrefixOf_iff_prefix.mp h
  rcases List.prefix_or_prefix_of_prefix hprefix (List.prefix_append text rest) with h | h
  · exact h.length_le
  · obtain ⟨u, rfl⟩ := h
    cases u with
    | nil => simp
    | cons c u =>
      have hhead : c ∈ rest.head? := by
        obtain ⟨others, hothers⟩ := (List.prefix_append_right_inj text).mp hprefix
        rw [← hothers]
        rfl
      have hc := hrest c hhead
      rw [Text.isLineBreak_of_isWordPart (hw.isWordPart c (by simp))] at hc
      cases hc

theorem of_wholeWord? {text : List Char} {afterWord : Bool} {entry : List Char × List Char}
    (h : wholeWord? literals afterWord text = some entry) :
  entry ∈ literals ∧ entry.1.isPrefixOf text = true
  := by
  rw [wholeWord?] at h
  split at h
  · cases h
  · have hentry := List.find?_some h
    rw [Bool.and_eq_true] at hentry
    exact ⟨List.mem_of_find?_eq_some h, hentry.1⟩

/-- What the text of a line is replaced by goes on to the same line break. -/
theorem exists_replaceWords_line (hbare : AreBareWords literals) {text rest : List Char}
    (htext : ∀ c ∈ text, Text.isLineBreak c = false)
    (hrest : ∀ c ∈ rest.head?, Text.isLineBreak c = true) (afterWord : Bool) {skip : Nat}
    (hskip : skip ≤ text.length) :
  ∃ replaced : List Char, (∀ c ∈ replaced, Text.isLineBreak c = false)
    ∧ replaceWords literals afterWord skip (text ++ rest)
      = replaced ++ replaceWords literals false 0 rest
  := by
  induction text generalizing afterWord skip with
  | nil =>
    obtain rfl : skip = 0 := Nat.le_zero.mp hskip
    refine ⟨[], by simp, ?_⟩
    apply replaceWords_of_head hbare
    intro c hc
    have hbreak := hrest c hc
    rw [Text.isLineBreak, Bool.or_eq_true, beq_iff_eq, beq_iff_eq] at hbreak
    rcases hbreak with rfl | rfl <;> decide
  | cons c text ih =>
    have ih := fun afterWord skip => @ih (fun d hd => htext d (List.mem_cons_of_mem c hd))
      afterWord skip
    cases skip with
    | succ skip =>
      rw [List.cons_append, replaceWords]
      exact ih _ _ (Nat.le_of_succ_le_succ hskip)
    | zero =>
      cases hwhole : wholeWord? literals afterWord (c :: (text ++ rest)) with
      | none =>
        obtain ⟨replaced, hreplaced, heq⟩ := ih (Text.isWordPart c) 0 (Nat.zero_le _)
        refine ⟨c :: replaced, ?_, ?_⟩
        · intro d hd
          rcases List.mem_cons.mp hd with rfl | hd
          · exact htext d List.mem_cons_self
          · exact hreplaced d hd
        · rw [List.cons_append, replaceWords_cons hwhole, heq]
          rfl
      | some entry =>
        obtain ⟨hentry, hprefix⟩ := of_wholeWord? hwhole
        have hlength := @length_le_of_isPrefixOf _ (c :: text) _ (hbare.isName _ hentry)
          hrest hprefix
        rw [List.length_cons] at hlength
        obtain ⟨replaced, hreplaced, heq⟩ :=
          ih (Text.isWordPart c) (entry.1.length - 1) (by omega)
        refine ⟨entry.2 ++ replaced, ?_, ?_⟩
        · intro d hd
          rcases List.mem_append.mp hd with hd | hd
          · obtain ⟨value, hvalue⟩ := hbare.quoted entry hentry
            exact isLineBreak_of_mem_quote (hvalue ▸ hd)
          · exact hreplaced d hd
        · rw [List.cons_append, replaceWords, hwhole]
          simp only [heq, List.append_assoc]

/-! ### Lexemes -/

/-- The text of lexemes up to the first string. -/
def leadingRun : List Lexeme → List Char
  | [] => []
  | lexeme :: rest => if lexeme.kind = .string then [] else lexeme.text ++ leadingRun rest

/-- The text of lexemes from the first string on, with words replaced. -/
def afterRun (literals : List (List Char × List Char)) : List Lexeme → List Char
  | [] => []
  | lexeme :: rest =>
    if lexeme.kind = .string then
      lexeme.text ++ replaceBetween literals [] rest
    else
      afterRun literals rest

/-- The text of lexemes with words replaced, after a word character or not. -/
def replaceFrom (literals : List (List Char × List Char)) (afterWord : Bool)
    (ls : List Lexeme) : List Char :=
  replaceWords literals afterWord 0 (leadingRun ls) ++ afterRun literals ls

theorem replaceBetween_eq (pending : List Char) (ls : List Lexeme) :
  replaceBetween literals pending ls
    = replaceWords literals false 0 (pending ++ leadingRun ls) ++ afterRun literals ls
  := by
  induction ls generalizing pending with
  | nil => simp [replaceBetween, leadingRun, afterRun]
  | cons lexeme rest ih =>
    rw [replaceBetween, leadingRun, afterRun]
    split
    · rw [List.append_nil, List.append_assoc]
    · rw [ih, List.append_assoc]

theorem replaceBetween_nil (ls : List Lexeme) :
  replaceBetween literals [] ls = replaceFrom literals false ls
  := replaceBetween_eq [] ls

/-- A string stays as it is. -/
theorem replaceFrom_string {lexeme : Lexeme} (h : lexeme.kind = .string) (afterWord : Bool)
    (rest : List Lexeme) :
  replaceFrom literals afterWord (lexeme :: rest)
    = lexeme.text ++ replaceFrom literals false rest
  := by
  rw [replaceFrom, leadingRun, afterRun, if_pos h, if_pos h, replaceBetween_nil]
  rfl

/-- The text of the first lexemes starts like the text, if it is not empty. -/
theorem head?_leadingRun {text : List Char} {c : Char}
    (h : c ∈ (leadingRun (lexemes text)).head?) :
  c ∈ text.head?
  := by
  cases text with
  | nil =>
    rw [lexemes, leadingRun] at h
    cases h
  | cons d others =>
    obtain ⟨rest, htext, -⟩ := exists_first_append d others
    rw [lexemes_of_first_append htext, leadingRun] at h
    split at h
    · cases h
    · obtain ⟨e, u, hfirst⟩ :=
        List.exists_cons_of_ne_nil (Lexeme.first_text_ne_nil d others)
      rw [hfirst] at h htext
      rw [htext]
      exact h

/-- A lexeme without characters that words start with stays as it is. -/
theorem replaceFrom_of_not_isWordStart (hbare : AreBareWords literals) {lexeme : Lexeme}
    (hkind : lexeme.kind ≠ .string) (h : ∀ c ∈ lexeme.text, Text.isWordStart c = false)
    (afterWord : Bool) (rest : List Lexeme) :
  replaceFrom literals afterWord (lexeme :: rest)
    = lexeme.text ++ replaceFrom literals (afterText afterWord lexeme.text) rest
  := by
  rw [replaceFrom, leadingRun, afterRun, if_neg hkind, if_neg hkind, replaceWords_append hbare h,
    List.append_assoc]
  rfl

/-- A word after a word character stays as it is. -/
theorem replaceFrom_afterWord {lexeme : Lexeme} (hkind : lexeme.kind ≠ .string)
    (h : Text.IsName lexeme.text) (rest : List Lexeme) :
  replaceFrom literals true (lexeme :: rest) = lexeme.text ++ replaceFrom literals true rest
  := by
  rw [replaceFrom, leadingRun, afterRun, if_neg hkind, if_neg hkind,
    replaceWords_afterWord h.isWordPart, List.append_assoc]
  rfl

/-- A word that stands for a literal is replaced by it, and any other word stays. -/
theorem replaceFrom_name (hbare : AreBareWords literals) {lexeme : Lexeme}
    (hkind : lexeme.kind ≠ .string) (h : Text.IsName lexeme.text) {rest : List Char}
    (hrest : ∀ c ∈ rest.head?, Text.isWordPart c = false) :
  replaceFrom literals false (lexeme :: lexemes rest)
    = (literals.lookup lexeme.text).getD lexeme.text ++ replaceFrom literals true (lexemes rest)
  := by
  rw [replaceFrom, leadingRun, afterRun, if_neg hkind, if_neg hkind,
    replaceWords_name hbare h (fun c hc => hrest c (head?_leadingRun hc)), List.append_assoc]
  rfl

/-- A comment stays one. -/
theorem exists_replaceFrom_comment (hbare : AreBareWords literals) {lexeme : Lexeme}
    (hkind : lexeme.kind = .comment) {line rest : List Char}
    (htext : lexeme.text = '/' :: '/' :: line)
    (hline : ∀ c ∈ line, Text.isLineBreak c = false)
    (hrest : ∀ c ∈ rest.head?, Text.isLineBreak c = true) (afterWord : Bool) :
  ∃ replaced : List Char, (∀ c ∈ replaced, Text.isLineBreak c = false)
    ∧ replaceFrom literals afterWord (lexeme :: lexemes rest)
      = '/' :: '/' :: replaced ++ replaceFrom literals false (lexemes rest)
  := by
  obtain ⟨replaced, hreplaced, heq⟩ := exists_replaceWords_line hbare hline
    (fun c hc => hrest c (head?_leadingRun hc)) false (Nat.zero_le _)
  refine ⟨replaced, hreplaced, ?_⟩
  have hslash : ∀ c ∈ ['/', '/'], Text.isWordStart c = false := by
    intro c hc
    obtain rfl : c = '/' := by simpa using hc
    decide
  have hne : lexeme.kind ≠ .string := by simp [hkind]
  have hwords := replaceWords_append hbare hslash afterWord (line ++ leadingRun (lexemes rest))
  rw [afterText_of_ne_nil (by simp)] at hwords
  rw [replaceFrom, leadingRun, afterRun, if_neg hne, if_neg hne, htext, replaceFrom]
  change replaceWords literals afterWord 0 (['/', '/'] ++ (line ++ _)) ++ _ = _
  rw [hwords]
  change '/' :: '/' :: replaceWords literals false 0 (line ++ _) ++ _ = _
  rw [heq]
  simp

/-! ### Terminals -/

/-- What words are replaced in starts like the text, or with a quote in place of a word. -/
theorem head?_replaceFrom (hbare : AreBareWords literals) (afterWord : Bool)
    (text : List Char) :
  (replaceFrom literals afterWord (lexemes text)).head? = text.head?
    ∨ (∃ c ∈ text.head?, Text.isWordStart c = true)
      ∧ (replaceFrom literals afterWord (lexemes text)).head? = some '"'
  := by
  cases text with
  | nil =>
    rw [lexemes]
    exact .inl rfl
  | cons c others =>
    obtain ⟨rest, htext, -⟩ := exists_first_append c others
    obtain ⟨d, u, hfirst⟩ := List.exists_cons_of_ne_nil (Lexeme.first_text_ne_nil c others)
    rw [lexemes_of_first_append htext]
    rw [hfirst] at htext
    rw [htext]
    by_cases hkind : (Lexeme.first c others).kind = .string
    · rw [replaceFrom_string hkind, hfirst]
      exact .inl rfl
    · rw [replaceFrom, leadingRun, afterRun, if_neg hkind, if_neg hkind, hfirst,
        List.cons_append]
      cases hwhole : wholeWord? literals afterWord (d :: (u ++ leadingRun (lexemes rest))) with
      | none =>
        rw [replaceWords_cons hwhole]
        exact .inl rfl
      | some entry =>
        obtain ⟨hentry, hprefix⟩ := of_wholeWord? hwhole
        obtain ⟨value, hvalue⟩ := hbare.quoted entry hentry
        obtain ⟨e, v, hname, he, -⟩ := hbare.isName entry hentry
        rw [hname, List.isPrefixOf, Bool.and_eq_true, beq_iff_eq] at hprefix
        rw [replaceWords, hwhole]
        simp only [hvalue]
        exact .inr ⟨⟨d, rfl, hprefix.1 ▸ he⟩, rfl⟩

theorem replaceFrom_dot (hbare : AreBareWords literals) (afterWord : Bool) (rest : List Char) :
  replaceFrom literals afterWord (lexemes ('.' :: rest))
    = '.' :: replaceFrom literals false (lexemes rest)
  := by
  have hfirst : (Lexeme.first '.' rest).terminal = .ofSymbol .dot := by
    apply Lexeme.first_of_leading? rfl
    · simp
    · simp [Symbol.leading?, Symbol.all, Symbol.spelling, List.isPrefixOf]
  have hkind : (Lexeme.first '.' rest).kind = .symbol .dot := congrArg Terminal.kind hfirst
  have htext : (Lexeme.first '.' rest).text = ['.'] := congrArg Terminal.text hfirst
  have hlexemes : lexemes ('.' :: rest) = Lexeme.first '.' rest :: lexemes rest := by
    rw [lexemes, htext]
    rfl
  have hdot : ∀ c ∈ (Lexeme.first '.' rest).text, Text.isWordStart c = false := by
    intro c hc
    rw [htext, List.mem_singleton] at hc
    rw [hc]
    decide
  rw [hlexemes, replaceFrom_of_not_isWordStart hbare (by simp [hkind]) hdot, htext,
    afterText_of_ne_nil (by simp)]
  rfl

/-- What words are replaced in starts like the text. -/
theorem alike_replaceFrom (hbare : AreBareWords literals) (afterWord : Bool)
    (text : List Char) :
  Alike text (replaceFrom literals afterWord (lexemes text))
  := by
  constructor
  · exact head?_replaceFrom hbare afterWord text
  · intro d others hout hdigit
    rcases head?_replaceFrom hbare afterWord text with hhead | ⟨-, hhead⟩
    · rw [hout] at hhead
      obtain ⟨rest, rfl⟩ := List.head?_eq_some_iff.mp hhead.symm
      rw [replaceFrom_dot hbare] at hout
      have hrest := (List.cons.inj hout).2
      rcases head?_replaceFrom hbare false rest with hhead | ⟨-, hhead⟩
      · rw [hrest] at hhead
        obtain ⟨others', rfl⟩ := List.head?_eq_some_iff.mp hhead.symm
        exact ⟨others', rfl⟩
      · rw [hrest] at hhead
        cases hhead
        cases hdigit
    · rw [hout] at hhead
      cases hhead

/-- Replacing words in a text replaces them among its terminals, but for the texts of its
comments. -/
def Replaces (literals : List (List Char × List Char)) (text : List Char) : Prop :=
  ∀ afterWord, (terminals (replaceFrom literals afterWord (lexemes text))).map Terminal.silenced
    = (substituteAll literals afterWord (terminals text)).map Terminal.silenced

namespace Replaces

variable {c : Char} {others rest : List Char} (hbare : AreBareWords literals)
  (htext : c :: others = (Lexeme.first c others).text ++ rest) (h : Replaces literals rest)

include hbare htext h

/-- A terminal that is not replaced. -/
theorem pass {afterWord : Bool} (hcomment : (Lexeme.first c others).kind ≠ .comment)
    (hself : (Lexeme.first c others).terminal.substituted literals afterWord
      = (Lexeme.first c others).terminal)
    (hreplace : replaceFrom literals afterWord (Lexeme.first c others :: lexemes rest)
      = (Lexeme.first c others).text
        ++ replaceFrom literals (Lexeme.first c others).terminal.endsWord (lexemes rest)) :
  (terminals (replaceFrom literals afterWord (lexemes (c :: others)))).map Terminal.silenced
    = (substituteAll literals afterWord (terminals (c :: others))).map Terminal.silenced
  := by
  have hfirst := firstTerminal?_of_alike (firstTerminal?_of_first_append htext) hcomment
    (alike_replaceFrom hbare (Lexeme.first c others).terminal.endsWord rest)
  have hterminals := terminals_append hfirst
  rw [lexemes_of_first_append htext, hreplace, terminals_of_first_append htext, substituteAll,
    hself]
  change (terminals ((Lexeme.first c others).terminal.text ++ _)).map _ = _
  rw [hterminals, List.map_cons, List.map_cons, h]

theorem identifier (hkind : (Lexeme.first c others).kind = .identifier) :
  Replaces literals (c :: others)
  := by
  intro afterWord
  have hname := Lexeme.isName_of_first_kind hkind
  have hstring : (Lexeme.first c others).kind ≠ .string := by simp [hkind]
  have hword : (Lexeme.first c others).terminal.endsWord = true := by
    have hlast := hname.isWordPart _ (List.getLast_mem hname.ne_nil)
    rw [Terminal.endsWord_of_ne_string hstring]
    change (Lexeme.first c others).text.getLast?.any Text.isWordPart = true
    rw [List.getLast?_eq_some_getLast hname.ne_nil]
    exact hlast
  cases afterWord with
  | true =>
    apply pass hbare htext h (by simp [hkind])
    · simp [Terminal.substituted]
    · rw [hword]
      exact replaceFrom_afterWord hstring hname _
  | false =>
    have hreplace := replaceFrom_name hbare hstring hname
      (Lexeme.isWordPart_of_first_identifier hkind htext)
    have hself : (Lexeme.first c others).terminal.kind = .identifier := hkind
    cases hlookup : literals.lookup (Lexeme.first c others).text with
    | none =>
      rw [hlookup] at hreplace
      apply pass hbare htext h (by simp [hkind])
      · exact Terminal.substituted_of_lookup_none hlookup false
      · rw [hword]
        exact hreplace
    | some literal =>
      obtain ⟨before, after, hliterals, -⟩ := List.lookup_eq_some_iff.mp hlookup
      obtain ⟨value, rfl⟩ :=
        hbare.quoted ((Lexeme.first c others).text, literal) (by rw [hliterals]; simp)
      have hquote := @terminals_append ⟨.string, quote value, false⟩ _
        (Terminal.firstTerminal?_quote value (replaceFrom literals true (lexemes rest)))
      have hliteral := Terminal.substituted_of_lookup_some hself hlookup
      rw [lexemes_of_first_append htext, hreplace, hlookup, terminals_of_first_append htext,
        substituteAll, hliteral, hword]
      change (terminals (quote value ++ _)).map _ = _
      rw [hquote, List.map_cons, List.map_cons, h]

theorem comment (hkind : (Lexeme.first c others).kind = .comment) :
  Replaces literals (c :: others)
  := by
  intro afterWord
  obtain ⟨line, hline, hunbroken, hrest⟩ := Lexeme.exists_first_comment hkind htext
  obtain ⟨replaced, hreplaced, hreplace⟩ :=
    exists_replaceFrom_comment hbare hkind hline hunbroken hrest afterWord
  have hstart : ∀ d ∈ rest.head?, Text.isWordStart d = false := by
    intro d hd
    have hbreak := hrest d hd
    rw [Text.isLineBreak, Bool.or_eq_true, beq_iff_eq, beq_iff_eq] at hbreak
    rcases hbreak with rfl | rfl <;> decide
  generalize hout : replaceFrom literals false (lexemes rest) = out at hreplace
  have hhead : ∀ d ∈ out.head?, Text.isLineBreak d = true := by
    intro d hd
    rcases head?_replaceFrom hbare false rest with hsame | ⟨⟨e, he, hword⟩, -⟩
    · rw [hout] at hsame
      exact hrest d (hsame ▸ hd)
    · rw [hstart e he] at hword
      cases hword
  have hterminals := Terminal.terminals_comment hreplaced hhead
  have hself : (Lexeme.first c others).terminal.substituted literals afterWord
      = (Lexeme.first c others).terminal := Terminal.substituted_of_ne (by
    change (Lexeme.first c others).kind ≠ .identifier
    simp [hkind])
  have hsilenced : (Lexeme.first c others).terminal.silenced = ⟨.comment, [], false⟩ :=
    if_pos hkind
  rw [lexemes_of_first_append htext, hreplace]
  change (terminals ('/' :: '/' :: replaced ++ out)).map _ = _
  rw [hterminals, terminals_of_first_append htext, substituteAll, hself, List.map_cons,
    List.map_cons, hsilenced, substituteAll_terminals hstart, ← hout, h false]
  rfl

/-- A lexeme before a text with words replaced. -/
theorem cons :
  Replaces literals (c :: others)
  := by
  by_cases hidentifier : (Lexeme.first c others).kind = .identifier
  · exact identifier hbare htext h hidentifier
  by_cases hcomment : (Lexeme.first c others).kind = .comment
  · exact comment hbare htext h hcomment
  intro afterWord
  apply pass hbare htext h hcomment (Terminal.substituted_of_ne hidentifier)
  by_cases hstring : (Lexeme.first c others).kind = .string
  · rw [replaceFrom_string hstring, Terminal.endsWord_string hstring]
  · rw [replaceFrom_of_not_isWordStart hbare hstring
      (Lexeme.not_isWordStart_of_first hstring hidentifier hcomment),
      afterText_of_ne_nil (Lexeme.first_text_ne_nil c others),
      Terminal.endsWord_of_ne_string hstring]
    rfl

end Replaces

theorem replaces (hbare : AreBareWords literals) (text : List Char) :
  Replaces literals text
  := by
  induction text using lexemes_induction with
  | nil =>
    intro afterWord
    rw [terminals_nil, lexemes]
    simp [replaceFrom, leadingRun, afterRun, replaceWords, substituteAll]
  | cons c others rest htext ih => exact Replaces.cons hbare htext ih

/-- The terminals of a text with words replaced, but for the texts of comments. -/
theorem terminals_applyAll {substitutions : List Substitution}
    (hbare : AreBareWords (Substitution.literals substitutions)) (text : List Char) :
  (terminals (applyAll substitutions text)).map Terminal.silenced
    = (substituteAll (Substitution.literals substitutions) false (terminals text)).map
        Terminal.silenced
  := by
  rw [applyAll, replaceBetween_nil]
  exact replaces hbare text false

/-- What the grammar is given of a text with words replaced is the meaning of the text. -/
theorem significantTokens_applyAll {substitutions : List Substitution}
    (hbare : AreBareWords (Substitution.literals substitutions)) (text : List Char) :
  (significantTokens (applyAll substitutions text)).map Token.terminal
    = meaning (Substitution.literals substitutions) text
  := by
  rw [map_terminal_significantTokens, meaning, ← Terminal.filter_isSignificant_map_silenced,
    terminals_applyAll hbare, Terminal.filter_isSignificant_map_silenced]

end TriggerLang.Substitution
