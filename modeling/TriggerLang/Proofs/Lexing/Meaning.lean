import Mathlib.Data.List.TakeWhile
import TriggerLang.Proofs.Lexing.First

/-!
# The meaning of a text

Where bare words stand for literals, the grammar sees the literals.  The meaning of a text is
the list of the terminals that it sees: those of the text that mean something, with the words
replaced that stand by themselves.  Without such words it is the list of the significant
terminals.

A text that is written between other texts has a meaning of its own, provided that what
follows it cannot go on with its last terminal (`Means`).  The meanings of texts that are put
together this way are put together as well.
-/

namespace TriggerLang

namespace Terminal

/-- The terminal with its word replaced by the literal that it stands for, unless a word
character comes before it. -/
def substituted (literals : List (List Char × List Char)) (afterWord : Bool) (t : Terminal) :
    Terminal :=
  if t.kind = .identifier ∧ afterWord = false then
    match literals.lookup t.text with
    | some literal => ⟨.string, literal, false⟩
    | none => t
  else
    t

/-- The terminal ends with a word character that belongs to a word. -/
def endsWord (t : Terminal) : Bool :=
  t.kind != .string && t.text.getLast?.any Text.isWordPart

theorem endsWord_of_ne_string {t : Terminal} (h : t.kind ≠ .string) :
  t.endsWord = t.text.getLast?.any Text.isWordPart
  := by
  rw [endsWord, bne_iff_ne.mpr h, Bool.true_and]

theorem endsWord_string {t : Terminal} (h : t.kind = .string) :
  t.endsWord = false
  := by
  simp [endsWord, h]

theorem substituted_of_ne {literals : List (List Char × List Char)} {afterWord : Bool}
    {t : Terminal} (h : t.kind ≠ .identifier) :
  t.substituted literals afterWord = t
  := by
  rw [substituted, if_neg (fun hand => h hand.1)]

theorem substituted_of_lookup_none {literals : List (List Char × List Char)} {t : Terminal}
    (h : literals.lookup t.text = none) (afterWord : Bool) :
  t.substituted literals afterWord = t
  := by
  rw [substituted, h]
  exact ite_self t

theorem substituted_of_lookup_some {literals : List (List Char × List Char)} {t : Terminal}
    {literal : List Char} (hkind : t.kind = .identifier)
    (h : literals.lookup t.text = some literal) :
  t.substituted literals false = ⟨.string, literal, false⟩
  := by
  rw [substituted, if_pos ⟨hkind, rfl⟩, h]

theorem substituted_eq_or (t : Terminal) (literals : List (List Char × List Char))
    (afterWord : Bool) :
  t.substituted literals afterWord = t ∨ (t.substituted literals afterWord).kind = .string
  := by
  unfold substituted
  split
  · split
    · exact .inr rfl
    · exact .inl rfl
  · exact .inl rfl

end Terminal

/-- Terminals with words replaced, after a word character or not. -/
def substituteAll (literals : List (List Char × List Char)) :
    Bool → List Terminal → List Terminal
  | _, [] => []
  | afterWord, t :: rest =>
    t.substituted literals afterWord :: substituteAll literals t.endsWord rest

/-- The terminals that the grammar sees of a text in which words stand for literals. -/
def meaning (literals : List (List Char × List Char)) (text : List Char) : List Terminal :=
  (substituteAll literals false (terminals text)).filter Terminal.isSignificant

theorem substituteAll_nil (afterWord : Bool) (ts : List Terminal) :
  substituteAll [] afterWord ts = ts
  := by
  induction ts generalizing afterWord with
  | nil => rfl
  | cons t rest ih => simp [substituteAll, Terminal.substituted, ih]

/-- Where no words stand for literals the meaning of a text is what the grammar is given. -/
theorem meaning_nil (source : List Char) :
  meaning [] source = (significantTokens source).map Token.terminal
  := by
  rw [meaning, substituteAll_nil, map_terminal_significantTokens]

variable {literals : List (List Char × List Char)}

theorem Lexeme.stringBody_kind (text : List Char) :
  (stringBody text).kind = .string
  := by
  fun_induction stringBody text with
  | case1 => rfl
  | case2 => rfl
  | case3 _ _ _ ih => exact ih
  | case4 => rfl
  | case5 => rfl
  | case6 _ _ _ _ _ _ _ ih => exact ih

theorem Lexeme.number_kind (text : List Char) :
  (number text).kind = .integer ∨ (number text).kind = .float
  := by
  unfold number
  split
  · split <;> simp
  · simp

/-- An identifier starts with a character that starts a word. -/
theorem Lexeme.isWordStart_of_first_kind {c : Char} {rest : List Char}
    (h : (first c rest).kind = .identifier) :
  Text.isWordStart c = true
  := by
  have hfirst := isFirst_first c rest
  generalize first c rest = lexeme at h hfirst
  cases hfirst with
  | string => simp [stringBody_kind] at h
  | number => rcases number_kind (c :: rest) with hkind | hkind <;> simp [hkind] at h
  | identifier hword => exact hword
  | _ => cases h

/-- An identifier is a word that starts like one. -/
theorem Lexeme.isName_of_first_kind {c : Char} {rest : List Char}
    (h : (first c rest).kind = .identifier) :
  Text.IsName (first c rest).text
  := by
  have hc := isWordStart_of_first_kind h
  rw [first_of_isWordStart hc]
  exact ⟨c, _, rfl, hc, fun d hd => List.mem_takeWhile_imp hd⟩

/-- Every terminal is the first one of some text. -/
theorem exists_first_of_mem_terminals {source : List Char} {t : Terminal}
    (h : t ∈ terminals source) :
  ∃ c rest, t = (Lexeme.first c rest).terminal
  := by
  obtain ⟨lexeme, hlexeme, rfl⟩ := List.mem_map.mp h
  clear h
  induction source using lexemes.induct with
  | case1 =>
    rw [lexemes] at hlexeme
    cases hlexeme
  | case2 c rest lexeme' ih =>
    rw [lexemes] at hlexeme
    rcases List.mem_cons.mp hlexeme with rfl | hlexeme
    · exact ⟨c, rest, rfl⟩
    · exact ih hlexeme

theorem isName_of_mem_terminals {source : List Char} {t : Terminal} (h : t ∈ terminals source)
    (hkind : t.kind = .identifier) :
  Text.IsName t.text
  := by
  obtain ⟨c, rest, rfl⟩ := exists_first_of_mem_terminals h
  exact Lexeme.isName_of_first_kind hkind

/-- Whether a word character comes before a text only matters to a word at its start. -/
theorem substituteAll_terminals {rest : List Char}
    (h : ∀ c ∈ rest.head?, Text.isWordStart c = false) (afterWord : Bool) :
  substituteAll literals afterWord (terminals rest)
    = substituteAll literals false (terminals rest)
  := by
  cases rest with
  | nil =>
    rw [terminals_nil]
    rfl
  | cons c rest =>
    have hkind : (Lexeme.first c rest).terminal.kind ≠ .identifier := by
      intro hkind
      have := h c rfl
      rw [Lexeme.isWordStart_of_first_kind hkind] at this
      cases this
    rw [terminals, lexemes, List.map_cons, substituteAll, substituteAll,
      Terminal.substituted_of_ne hkind, Terminal.substituted_of_ne hkind]

/-- The meaning of a text whose first terminal is known. -/
theorem meaning_append {t : Terminal} {rest : List Char}
    (hfirst : firstTerminal? (t.text ++ rest) = some t)
    (hrest : t.endsWord = true → ∀ c ∈ rest.head?, Text.isWordStart c = false) :
  meaning literals (t.text ++ rest)
    = [t.substituted literals false].filter Terminal.isSignificant ++ meaning literals rest
  := by
  have hall : substituteAll literals t.endsWord (terminals rest)
      = substituteAll literals false (terminals rest) := by
    cases hword : t.endsWord with
    | true => exact substituteAll_terminals (hrest hword) _
    | false => rfl
  rw [meaning, terminals_append hfirst, substituteAll, hall, ← List.singleton_append,
    List.filter_append]
  rfl

/-- White space before a text does not change its meaning. -/
theorem meaning_dropWhile_isSpace (rest : List Char) :
  meaning literals (rest.dropWhile Lexeme.isSpace) = meaning literals rest
  := by
  cases rest with
  | nil => rfl
  | cons c rest =>
    by_cases hspace : Lexeme.isSpace c = true
    · let t : Terminal := ⟨.whitespace, c :: rest.takeWhile Lexeme.isSpace, false⟩
      have htext : t.text ++ rest.dropWhile Lexeme.isSpace = c :: rest := by
        rw [List.cons_append, List.takeWhile_append_dropWhile]
      have hfirst : firstTerminal? (t.text ++ rest.dropWhile Lexeme.isSpace) = some t := by
        rw [htext, firstTerminal?, Lexeme.first_of_isSpace hspace]
        rfl
      have hword : t.endsWord = false := by
        have hlast : ∀ d ∈ t.text.getLast?, Text.isWordPart d = false := by
          intro d hd
          apply Lexeme.isWordPart_of_isSpace
          rcases List.mem_cons.mp (List.mem_of_getLast? hd) with rfl | hd
          · exact hspace
          · exact List.mem_takeWhile_imp hd
        rw [Terminal.endsWord, Bool.and_eq_false_iff]
        apply Or.inr
        cases hchar : t.text.getLast? with
        | none => rfl
        | some d => exact hlast d hchar
      have hmeaning : meaning literals (t.text ++ rest.dropWhile Lexeme.isSpace)
          = meaning literals (rest.dropWhile Lexeme.isSpace) :=
        meaning_append hfirst (fun h => absurd h (by simp [hword]))
      rw [List.dropWhile_cons_of_pos hspace, ← htext, hmeaning]
    · rw [List.dropWhile_cons_of_neg hspace]

/-- A space before a text does not change its meaning. -/
theorem meaning_space (rest : List Char) :
  meaning literals (' ' :: rest) = meaning literals rest
  := by
  rw [← meaning_dropWhile_isSpace (' ' :: rest), ← meaning_dropWhile_isSpace rest]
  rfl

/-! ### Texts between other texts -/

/-- What follows a text does not go on with its last terminal: it is empty, or starts with a
space, a comma or a bracket. -/
def Delimited (rest : List Char) : Prop :=
  ∀ c ∈ rest.head?, c = ' ' ∨ c = ',' ∨ c = '(' ∨ c = ')'

/-- The text stands for the terminals, whatever may follow it. -/
def Means (literals : List (List Char × List Char)) (text : List Char) (ts : List Terminal) :
    Prop :=
  ∀ rest, Delimited rest → meaning literals (text ++ rest) = ts ++ meaning literals rest

namespace Delimited

theorem nil :
  Delimited []
  := by
  rintro c ⟨⟩

theorem space (rest : List Char) :
  Delimited (' ' :: rest)
  := by
  rintro c ⟨⟩
  exact .inl rfl

theorem comma (rest : List Char) :
  Delimited (',' :: rest)
  := by
  rintro c ⟨⟩
  exact .inr (.inl rfl)

theorem openParen (rest : List Char) :
  Delimited ('(' :: rest)
  := by
  rintro c ⟨⟩
  exact .inr (.inr (.inl rfl))

theorem closeParen (rest : List Char) :
  Delimited (')' :: rest)
  := by
  rintro c ⟨⟩
  exact .inr (.inr (.inr rfl))

variable {rest : List Char} (h : Delimited rest)

include h

theorem isWordPart {c : Char} (hc : c ∈ rest.head?) :
  Text.isWordPart c = false
  := by
  rcases h c hc with rfl | rfl | rfl | rfl <;> decide

theorem isWordStart {c : Char} (hc : c ∈ rest.head?) :
  Text.isWordStart c = false
  := by
  rcases h c hc with rfl | rfl | rfl | rfl <;> decide

theorem isDigit {c : Char} (hc : c ∈ rest.head?) :
  Text.isDigit c = false
  := by
  rcases h c hc with rfl | rfl | rfl | rfl <;> decide

theorem head?_ne {d : Char} (hd : d ∉ [' ', ',', '(', ')']) :
  rest.head? ≠ some d
  := by
  intro hhead
  rcases h d hhead with rfl | rfl | rfl | rfl <;> simp at hd

end Delimited

/-- A symbol that stands alone is read back whatever follows. -/
theorem meaning_symbol {s : Symbol} (h : s.standsAlone = true) (rest : List Char) :
  meaning literals (s.spelling ++ rest) = .ofSymbol s :: meaning literals rest
  := by
  have hfirst : firstTerminal? (s.spelling ++ rest) = some (.ofSymbol s) :=
    Terminal.firstTerminal?_symbol s (by simp [h])
  have hword : (Terminal.ofSymbol s).endsWord = false := by cases s <;> decide
  have hmeaning := @meaning_append literals (.ofSymbol s) rest hfirst
    (fun h => absurd h (by simp [hword]))
  exact hmeaning

namespace Means

theorem meaning_eq {text : List Char} {ts : List Terminal} (h : Means literals text ts) :
  meaning literals text = ts
  := by
  have hmeaning := h [] .nil
  have hnil : meaning literals [] = [] := by simp [meaning, substituteAll]
  rwa [List.append_nil, hnil, List.append_nil] at hmeaning

/-- A terminal that is read back where nothing goes on with it stands for itself, or for the
literal that its word stands for. -/
theorem of_terminal {t : Terminal}
    (hfirst : ∀ rest, Delimited rest → firstTerminal? (t.text ++ rest) = some t)
    (hsignificant : (t.substituted literals false).isSignificant = true) :
  Means literals t.text [t.substituted literals false]
  := by
  intro rest hrest
  rw [meaning_append (hfirst rest hrest) (fun _ c hc => hrest.isWordStart hc)]
  rw [List.filter_cons_of_pos hsignificant]
  rfl

/-- A word that is no bare word stands for itself. -/
theorem word {w : List Char} (hw : Text.IsName w) (hliteral : literals.lookup w = none) :
  Means literals w [⟨.identifier, w, false⟩]
  := by
  have hself := @Terminal.substituted_of_lookup_none literals ⟨.identifier, w, false⟩ hliteral
    false
  rw [← hself]
  apply of_terminal (t := ⟨.identifier, w, false⟩)
  · exact fun rest hrest => hw.firstTerminal? (fun c => hrest.isWordPart)
  · rw [hself]
    rfl

/-- A bare word stands for its literal. -/
theorem bareWord {w literal : List Char} (hw : Text.IsName w)
    (hliteral : literals.lookup w = some literal) :
  Means literals w [⟨.string, literal, false⟩]
  := by
  have hself := @Terminal.substituted_of_lookup_some literals ⟨.identifier, w, false⟩ _ rfl
    hliteral
  rw [← hself]
  apply of_terminal (t := ⟨.identifier, w, false⟩)
  · exact fun rest hrest => hw.firstTerminal? (fun c => hrest.isWordPart)
  · rw [hself]
    rfl

/-- A terminal that is no word stands for itself where it is read back. -/
theorem of_ne_identifier {t : Terminal} (hkind : t.kind ≠ .identifier)
    (hsignificant : t.isSignificant = true)
    (hfirst : ∀ rest, Delimited rest → firstTerminal? (t.text ++ rest) = some t) :
  Means literals t.text [t]
  := by
  have hself : t.substituted literals false = t := Terminal.substituted_of_ne hkind
  have hmeans := @of_terminal literals t hfirst (hself.symm ▸ hsignificant)
  rwa [hself] at hmeans

theorem integer {digits : List Char} (hne : digits ≠ [])
    (hdigits : ∀ c ∈ digits, Text.isDigit c = true) :
  Means literals digits [⟨.integer, digits, false⟩]
  := by
  apply of_ne_identifier (t := ⟨.integer, digits, false⟩) (by simp) rfl
  intro rest hrest
  apply Terminal.firstTerminal?_integer hne hdigits (fun c => hrest.isDigit)
  rintro d others rfl
  exact absurd rfl (hrest.head?_ne (d := '.') (by decide))

theorem float {whole fraction : List Char} (hwhole : whole ≠ []) (hfraction : fraction ≠ [])
    (hwholeDigits : ∀ c ∈ whole, Text.isDigit c = true)
    (hfractionDigits : ∀ c ∈ fraction, Text.isDigit c = true) :
  Means literals (whole ++ '.' :: fraction) [⟨.float, whole ++ '.' :: fraction, false⟩]
  := by
  apply of_ne_identifier (t := ⟨.float, whole ++ '.' :: fraction, false⟩) (by simp) rfl
  intro rest hrest
  exact Terminal.firstTerminal?_float hwhole hfraction hwholeDigits hfractionDigits
    (fun c => hrest.isDigit)

theorem quote (value : List Char) :
  Means literals (quote value) [⟨.string, TriggerLang.quote value, false⟩]
  := by
  apply of_ne_identifier (t := ⟨.string, TriggerLang.quote value, false⟩) (by simp) rfl
  exact fun rest _ => Terminal.firstTerminal?_quote value rest

theorem symbol (s : Symbol) :
  Means literals s.spelling [.ofSymbol s]
  := by
  apply of_ne_identifier (t := .ofSymbol s) (by simp [Terminal.ofSymbol]) rfl
  intro rest hrest
  apply Terminal.firstTerminal?_symbol
  exact fun _ => ⟨hrest.head?_ne (by decide), hrest.head?_ne (by decide)⟩

variable {text other : List Char} {ts us : List Terminal}

/-- A text after a symbol that stands alone. -/
theorem symbol_append {s : Symbol} (hs : s.standsAlone = true) (h : Means literals text ts) :
  Means literals (s.spelling ++ text) (.ofSymbol s :: ts)
  := by
  intro rest hrest
  rw [List.append_assoc, meaning_symbol hs, h rest hrest]
  rfl

/-- A text between brackets. -/
theorem bracketed (h : Means literals text ts) :
  Means literals ('(' :: text ++ [')'])
    (.ofSymbol .openParen :: ts ++ [.ofSymbol .closeParen])
  := by
  have hclosed : Means literals (text ++ [')']) (ts ++ [.ofSymbol .closeParen]) := by
    intro rest _
    have hrest := @meaning_symbol literals .closeParen rfl rest
    rw [List.append_assoc, List.append_assoc, List.singleton_append, h _ (.closeParen rest)]
    exact congrArg (ts ++ ·) hrest
  exact symbol_append (s := .openParen) rfl hclosed

/-- A word before a text between brackets. -/
theorem call {w : List Char} {t : Terminal} (hw : Means literals w [t])
    (h : Means literals text ts) :
  Means literals (w ++ '(' :: text ++ [')'])
    (t :: .ofSymbol .openParen :: ts ++ [.ofSymbol .closeParen])
  := by
  intro rest hrest
  have hopen : Delimited ('(' :: text ++ [')'] ++ rest) := .openParen _
  rw [List.append_assoc w, List.append_assoc w, hw _ hopen, h.bracketed rest hrest]
  rfl

/-- An operator between two texts. -/
theorem between {spelling : List Char} {t : Terminal} (h : Means literals text ts)
    (hop : Means literals spelling [t]) (hother : Means literals other us) :
  Means literals (text ++ ' ' :: spelling ++ ' ' :: other) (ts ++ t :: us)
  := by
  intro rest hrest
  have htext : text ++ ' ' :: spelling ++ ' ' :: other ++ rest
      = text ++ ' ' :: (spelling ++ ' ' :: (other ++ rest)) := by
    simp
  rw [htext, h _ (.space _), meaning_space, hop _ (.space _), meaning_space, hother rest hrest]
  simp

/-- A comma between two texts. -/
theorem comma (h : Means literals text ts) (hother : Means literals other us) :
  Means literals (text ++ ',' :: ' ' :: other) (ts ++ .ofSymbol .comma :: us)
  := by
  intro rest hrest
  have htext : text ++ ',' :: ' ' :: other ++ rest
      = text ++ ',' :: ' ' :: (other ++ rest) := by
    simp
  have hcomma := @meaning_symbol literals .comma rfl (' ' :: (other ++ rest))
  rw [meaning_space, hother rest hrest] at hcomma
  rw [htext, h _ (.comma _), List.append_assoc]
  exact congrArg (ts ++ ·) hcomma

end Means

end TriggerLang
