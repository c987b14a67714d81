import TriggerLang.Fragment.Equality
import TriggerLang.Proofs.Grammar.Completeness
import TriggerLang.Proofs.Lexing.Stability
import TriggerLang.Proofs.Render.Printed

/-!
# Numbers that are rendered

A line can consist of a literal of a number behind minus signs.  The number that it stands for
is rendered as a literal without an exponent and at most one minus sign, and the rendered text
stands for the same number of the same kind, provided that the number is finite: an infinite
number, which a literal with enough digits stands for as well, is rendered as a word.
-/

namespace TriggerLang

/-- The characters of a literal of a number are digits and the point. -/
theorem digits_of_mem_terminals {text : List Char} {t : Terminal} (h : t ∈ terminals text)
    (hnumber : t.kind = .integer ∨ t.kind = .float) :
  ∀ c ∈ t.text, Text.isDigit c = true ∨ c = '.'
  := by
  obtain ⟨c, others, rfl⟩ := exists_first_of_mem_terminals h
  change (Lexeme.first c others).kind = .integer ∨ (Lexeme.first c others).kind = .float
    at hnumber
  change ∀ d ∈ (Lexeme.first c others).text, _
  have hfirst := Lexeme.isFirst_first c others
  generalize Lexeme.first c others = lexeme at hnumber hfirst
  cases hfirst with
  | number => exact fun d hd => Lexeme.number_digits hd
  | string => simp [Lexeme.stringBody_kind] at hnumber
  | _ => simp at hnumber

/-- The kind of the literals that a number is written with. -/
def Fragment.literalKind : Fragment → TokenKind
  | .float _ => .float
  | _ => .integer

namespace Grammar

/-- The number that a literal stands for. -/
def literalValue (literal : Terminal) : Fragment :=
  if literal.kind = .float then
    .float (floatValue literal.text)
  else
    .integer (readDigits literal.text)

/-- The number that a literal behind minus signs stands for. -/
def signedValue (signs : List Terminal) (literal : Terminal) : Fragment :=
  signs.foldr (fun _ number => negate number) (literalValue literal)

/-- The terminals are a literal of a number behind minus signs. -/
structure IsSigned (signs : List Terminal) (literal : Terminal) : Prop where
  minus : ∀ t ∈ signs, t.kind = .symbol .minus
  number : literal.kind = .integer ∨ literal.kind = .float

/-- The text consists of the number: of a literal of its kind behind at most one minus sign,
written with digits and a point only, and it is read as the number. -/
structure Spells (scope : Parse.Scope) (text : List Char) (number : Fragment) : Prop where
  tokens : (tokens text).map Token.kind = [number.literalKind, .endOfText]
    ∨ (tokens text).map Token.kind = [.symbol .minus, number.literalKind, .endOfText]
  characters : ∀ c ∈ text, Text.isDigit c = true ∨ c = '.' ∨ c = '-'
  value : parseLine scope text = .ok number

variable {scope : Parse.Scope} {signs : List Terminal} {literal : Terminal}

/-! ### Literals behind signs -/

theorem signedValue_integer (hkind : literal.kind = .integer) (signs : List Terminal) :
  ∃ n, signedValue signs literal = .integer n
  := by
  induction signs with
  | nil =>
    rw [signedValue, List.foldr_nil, literalValue, if_neg (by simp [hkind])]
    exact ⟨_, rfl⟩
  | cons t signs ih =>
    obtain ⟨n, hn⟩ := ih
    rw [signedValue, List.foldr_cons, ← signedValue, hn]
    exact ⟨-n, rfl⟩

/-- Signs make no finite number infinite, nor the other way round. -/
theorem signedValue_float (hkind : literal.kind = .float) (signs : List Terminal) :
  ∃ x, signedValue signs literal = .float x
    ∧ x.isFinite = (floatValue literal.text).isFinite
  := by
  induction signs with
  | nil =>
    rw [signedValue, List.foldr_nil, literalValue, if_pos hkind]
    exact ⟨_, rfl, rfl⟩
  | cons t signs ih =>
    obtain ⟨x, hx, hfinite⟩ := ih
    rw [signedValue, List.foldr_cons, ← signedValue, hx]
    exact ⟨-x, rfl, hfinite⟩

theorem literalKind_signedValue (hnumber : literal.kind = .integer ∨ literal.kind = .float)
    (signs : List Terminal) :
  (signedValue signs literal).literalKind = literal.kind
  := by
  rcases hnumber with hkind | hkind
  · obtain ⟨n, hn⟩ := signedValue_integer hkind signs
    rw [hn, hkind]
    rfl
  · obtain ⟨x, hx, -⟩ := signedValue_float hkind signs
    rw [hx, hkind]
    rfl

theorem derives_literalValue (hnumber : literal.kind = .integer ∨ literal.kind = .float) :
  Derives scope (.value .primary (literalValue literal)) [literal]
  := by
  rw [literalValue]
  split
  · rename_i hfloat
    exact .float hfloat
  · rename_i hfloat
    exact .integer (hnumber.resolve_right hfloat)

/-- A literal behind minus signs stands for its number with the sign changed once for each. -/
theorem IsSigned.derives (h : IsSigned signs literal) :
  Derives scope (.value .unary (signedValue signs literal)) (signs ++ [literal])
  := by
  obtain ⟨hminus, hnumber⟩ := h
  induction signs with
  | nil => exact .loosen (by decide) (derives_literalValue hnumber)
  | cons t signs ih =>
    obtain ⟨ht, hsigns⟩ := List.forall_mem_cons.mp hminus
    exact .negative ht (ih hsigns)

theorem IsSigned.parseLine_eq (h : IsSigned signs literal) {text : List Char}
    (hterminals : (significantTokens text).map Token.terminal = signs ++ [literal]) :
  parseLine scope text = .ok (signedValue signs literal)
  := by
  apply parseLine_of_derivesLine
  rw [hterminals]
  exact .expression (.loosen (by decide) h.derives)

/-- A literal behind at most one minus sign spells its number. -/
theorem spells_of_terminals {text : List Char} (hterminals : terminals text = signs ++ [literal])
    (hsigns : signs = [] ∨ signs = [.ofSymbol .minus])
    (hnumber : literal.kind = .integer ∨ literal.kind = .float) :
  Spells scope text (signedValue signs literal)
  := by
  have hminus : ∀ t ∈ signs, t = .ofSymbol .minus := by
    rcases hsigns with rfl | rfl <;> simp
  have hkinds : (tokens text).map Token.kind
      = signs.map Terminal.kind ++ [literal.kind, .endOfText] := by
    have hproper : (properTokens text).map Token.kind
        = (terminals text).map Terminal.kind := by
      rw [← map_terminal_properTokens, List.map_map]
      rfl
    rw [tokens, List.map_append, hproper, hterminals, List.map_append, List.append_assoc]
    rfl
  have hsignificant : ∀ t ∈ signs ++ [literal], t.isSignificant = true := by
    intro t ht
    rw [Terminal.isSignificant]
    rcases List.mem_append.mp ht with ht | ht
    · rw [hminus t ht]
      rfl
    · rw [List.mem_singleton.mp ht]
      rcases hnumber with hkind | hkind <;> rw [hkind] <;> rfl
  constructor
  case tokens =>
    rw [hkinds, literalKind_signedValue hnumber]
    rcases hsigns with rfl | rfl
    · exact .inl rfl
    · exact .inr rfl
  case characters =>
    intro c hc
    rw [← flatMap_text_terminals text, hterminals, List.mem_flatMap] at hc
    obtain ⟨t, ht, hc⟩ := hc
    rcases List.mem_append.mp ht with ht' | ht'
    · rw [hminus t ht'] at hc
      exact .inr (.inr (List.mem_singleton.mp hc))
    · rw [List.mem_singleton.mp ht'] at hc
      have hmem : literal ∈ terminals text := by simp [hterminals]
      rcases digits_of_mem_terminals hmem hnumber c hc with hdigit | hpoint
      · exact .inl hdigit
      · exact .inr (.inl hpoint)
  case value =>
    apply IsSigned.parseLine_eq ⟨fun t ht => by rw [hminus t ht]; rfl, hnumber⟩
    rw [map_terminal_significantTokens, hterminals, List.filter_eq_self]
    exact hsignificant

/-! ### Numbers that are written -/

/-- A terminal that is read back by itself is read back behind a minus sign. -/
theorem terminals_signed {t : Terminal} (hfirst : firstTerminal? (t.text ++ []) = some t) :
  terminals t.text = [t] ∧ terminals ('-' :: t.text) = [.ofSymbol .minus, t]
  := by
  have hself := terminals_append hfirst
  rw [List.append_nil, terminals_nil] at hself
  have hminus := @terminals_append (.ofSymbol .minus) t.text
    (Terminal.firstTerminal?_symbol .minus (by simp [Symbol.standsAlone]))
  rw [hself] at hminus
  exact ⟨hself, hminus⟩

/-- An integer is spelled by its digits and its sign. -/
theorem spells_integerText (n : Int) :
  Spells scope (integerText n) (.integer n)
  := by
  let literal : Terminal := ⟨.integer, Nat.toDigits 10 n.natAbs, false⟩
  have hvalue : literalValue literal = .integer n.natAbs := by
    rw [literalValue, if_neg TokenKind.noConfusion, readDigits_toDigits]
  have hfirst : firstTerminal? (literal.text ++ []) = some literal :=
    Terminal.firstTerminal?_integer Nat.toDigits_ne_nil (fun c => isDigit_of_mem_toDigits)
      (by simp) (by simp)
  obtain ⟨hpositive, hnegative⟩ := terminals_signed hfirst
  rw [integerText]
  split
  · have hspells := @spells_of_terminals scope [.ofSymbol .minus] literal _ hnegative (.inr rfl)
      (.inl rfl)
    have hn : signedValue [.ofSymbol .minus] literal = .integer n := by
      rw [signedValue, List.foldr_cons, List.foldr_nil, hvalue, negate]
      congr 1
      omega
    rwa [hn] at hspells
  · have hspells := @spells_of_terminals scope [] literal _ hpositive (.inl rfl) (.inl rfl)
    have hn : signedValue [] literal = .integer n := by
      rw [signedValue, List.foldr_nil, hvalue]
      congr 1
      omega
    rwa [hn] at hspells

/-- A finite number is spelled by its positional digits and its sign. -/
theorem spells_positional {x : Binary64} (hfinite : x.isFinite = true) :
  Spells scope x.positional (.float x)
  := by
  have hread : ∀ y : Binary64, y.isFinite = true → y.negative = false →
      let literal : Terminal := ⟨.float, y.positional, false⟩
      literalValue literal = .float y ∧ firstTerminal? (literal.text ++ []) = some literal := by
    intro y hy hsign
    obtain ⟨whole, fraction, h⟩ := Binary64.writesFloat_positional hy hsign
    refine ⟨?_, ?_⟩
    · rw [literalValue, if_pos rfl]
      exact congrArg Fragment.float (floatValue_of_writesFloat h)
    · have hfirst := @Terminal.firstTerminal?_float whole fraction [] h.whole_ne_nil
        h.fraction_ne_nil h.whole_digits h.fraction_digits (by simp)
      rwa [← h.text_eq] at hfirst
  cases hsign : x.negative with
  | false =>
    obtain ⟨hvalue, hfirst⟩ := hread x hfinite hsign
    have hspells := @spells_of_terminals scope [] _ _ (terminals_signed hfirst).1 (.inl rfl)
      (.inr rfl)
    rw [signedValue, List.foldr_nil, hvalue] at hspells
    exact hspells
  | true =>
    obtain ⟨hvalue, hfirst⟩ := hread (-x) hfinite (by simp [Neg.neg, Binary64.neg, hsign])
    have hspells := @spells_of_terminals scope [.ofSymbol .minus] _ _ (terminals_signed hfirst).2
      (.inr rfl) (.inr rfl)
    rw [signedValue, List.foldr_cons, List.foldr_nil, hvalue, negate, x.neg_neg] at hspells
    rw [Binary64.positional_of_negative hsign]
    exact hspells

/-- An infinite number is written as a word. -/
theorem positional_of_infinite {x : Binary64} (h : x.isFinite = false) :
  x.positional = x.sign ++ ['i', 'n', 'f']
  := by
  rw [Binary64.positional, h]
  rfl

theorem spells_positional_iff (x : Binary64) :
  Spells scope x.positional (.float x) ↔ x.isFinite = true
  := by
  refine ⟨fun h => ?_, spells_positional⟩
  by_contra hinfinite
  have hword : 'i' ∈ x.positional := by
    rw [positional_of_infinite (Bool.eq_false_iff.mpr hinfinite)]
    simp
  exact absurd (h.characters 'i' hword) (by decide)

/-! ### Lines -/

/-- A line that is a literal behind minus signs is read as its number, and what the number is
rendered as spells it exactly if the literal is finite. -/
theorem spells_render_iff {source : List Char} (h : IsSigned signs literal)
    (hline : (significantTokens source).map Token.terminal = signs ++ [literal])
    (scope : Parse.Scope) (renderer : Renderer) :
  parseLine scope source = .ok (signedValue signs literal)
    ∧ ∃ text, renderer.render (signedValue signs literal) = .ok text
      ∧ (Spells scope text (signedValue signs literal)
        ↔ (literal.kind = .float → (floatValue literal.text).isFinite = true))
  := by
  refine ⟨h.parseLine_eq hline, ?_⟩
  rcases h.number with hkind | hkind
  · obtain ⟨n, hn⟩ := signedValue_integer hkind signs
    have hinteger : literal.kind ≠ .float := by simp [hkind]
    refine ⟨integerText n, ?_, ?_⟩
    · rw [hn, Renderer.render, Renderer.rendered]
      rfl
    · rw [hn]
      exact iff_of_true (spells_integerText n) fun hfloat => absurd hfloat hinteger
  · obtain ⟨x, hx, hfinite⟩ := signedValue_float hkind signs
    refine ⟨x.positional, ?_, ?_⟩
    · rw [hx, Renderer.render, Renderer.rendered]
      rfl
    · rw [hx, spells_positional_iff, hfinite]
      exact ⟨fun hx _ => hx, fun himp => himp hkind⟩

/-- A number close to zero behind two minus signs is rendered without them and read back. -/
theorem spells_render_tiny :
  parseLine {} "- -0.00000000000000000001 // tiny".toList
      = .ok (signedValue [.ofSymbol .minus, .ofSymbol .minus]
        ⟨.float, "0.00000000000000000001".toList, false⟩)
    ∧ ∃ text, (⟨.builtin, []⟩ : Renderer).render
        (signedValue [.ofSymbol .minus, .ofSymbol .minus]
          ⟨.float, "0.00000000000000000001".toList, false⟩) = .ok text
      ∧ Spells {} text (signedValue [.ofSymbol .minus, .ofSymbol .minus]
        ⟨.float, "0.00000000000000000001".toList, false⟩)
  := by
  have hline : (significantTokens "- -0.00000000000000000001 // tiny".toList).map Token.terminal
      = [.ofSymbol .minus, .ofSymbol .minus]
        ++ [⟨.float, "0.00000000000000000001".toList, false⟩] := by
    decide +kernel
  have hfinite : (floatValue "0.00000000000000000001".toList).isFinite = true := by
    decide +kernel
  obtain ⟨hparse, text, hrender, hspells⟩ :=
    spells_render_iff ⟨by decide, .inr rfl⟩ hline {} ⟨.builtin, []⟩
  exact ⟨hparse, text, hrender, hspells.mpr fun _ => hfinite⟩

/-- The literal of a power of ten that is greater than every finite number. -/
def hugeLiteral : List Char :=
  '1' :: List.replicate 309 '0' ++ ['.', '0']

/-- The literal of a huge number is read as an infinite number, and what that is rendered as is
an undefined name. -/
theorem not_spells_hugeLiteral :
  IsSigned [] ⟨.float, hugeLiteral, false⟩
    ∧ (significantTokens hugeLiteral).map Token.terminal = [] ++ [⟨.float, hugeLiteral, false⟩]
    ∧ parseLine {} hugeLiteral = .ok (.float (.infinity false))
    ∧ (⟨.builtin, []⟩ : Renderer).render (.float (.infinity false)) = .ok ['i', 'n', 'f']
    ∧ ¬ Spells {} ['i', 'n', 'f'] (.float (.infinity false))
    ∧ parseLine {} ['i', 'n', 'f']
      = .error (.undefined ⟨.identifier, 0, ['i', 'n', 'f'], {}, 0⟩)
  := by
  have hsigned : IsSigned [] ⟨.float, hugeLiteral, false⟩ := ⟨by simp, .inr rfl⟩
  have hline : (significantTokens hugeLiteral).map Token.terminal
      = [] ++ [⟨.float, hugeLiteral, false⟩] := by
    decide +kernel
  have hinfinite : floatValue hugeLiteral = .infinity false := by decide +kernel
  have hparse := @IsSigned.parseLine_eq {} _ _ hsigned _ hline
  rw [signedValue, List.foldr_nil, literalValue, if_pos rfl, hinfinite] at hparse
  have hword : ¬ Spells {} (Binary64.infinity false).positional (.float (.infinity false)) :=
    fun h => absurd ((spells_positional_iff _).mp h) (by decide +kernel)
  refine ⟨hsigned, hline, hparse, ?_, hword, by decide +kernel⟩
  rw [Renderer.render, Renderer.rendered]
  rfl

end Grammar

end TriggerLang
