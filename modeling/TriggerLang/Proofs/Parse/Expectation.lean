import TriggerLang.Proofs.Lexing.Seam
import TriggerLang.Proofs.Parse.Refusal

/-!
# What a refusal expects

What a refused line is said to expect can stand in the place of what was found, but for two
slips: a comparison is expected after a comparison as well, and all operators are expected
after a trigger.  Nothing that starts with one of these is accepted there, except that two
slashes make a comment.
-/

namespace TriggerLang

namespace Grammar

open Parse

variable {scope : Scope}

/-! ### Comparisons after comparisons -/

/-- A token that compares is a symbol that starts no operand and closes no bracket. -/
theorem exists_symbol_of_isComparison {token : Token} {op : Operator}
    (hop : Operator.ofToken? token = some op) (hcomparison : op.isComparison = true) :
  ∃ s, token.kind = .symbol s ∧ s ∉ [.at, .openParen, .minus, .closeParen]
  := by
  rw [Operator.ofToken?] at hop
  split at hop
  · rename_i s hkind
    refine ⟨s, hkind, ?_⟩
    intro hs
    simp only [List.mem_cons, List.not_mem_nil, or_false] at hs
    rcases hs with rfl | rfl | rfl | rfl <;> cases hop
    cases hcomparison
  · split at hop
    · cases hop
      cases hcomparison
    · split at hop <;> cases hop
      cases hcomparison
  · cases hop

/-- A comparison is read behind an operand, and waits for its other operand. -/
theorem exists_eq_operand_of_isComparison {state state' : State} {token : Token} {op : Operator}
    (hop : Operator.ofToken? token = some op) (hcomparison : op.isComparison = true)
    (h : state.next scope token = .ok state') :
  ∃ left stack, state' = .operand (.binary op left :: stack)
  := by
  obtain ⟨s, hkind, hs⟩ := exists_symbol_of_isComparison hop hcomparison
  simp only [List.mem_cons, List.not_mem_nil, or_false, not_or] at hs
  obtain ⟨hat, hopen, hminus, hclose⟩ := hs
  have hoperand : ∀ stack, readOperand stack token ≠ .ok state' := by
    intro stack h
    rw [readOperand, hkind] at h
    split at h <;> simp_all
  have hafter : ∀ {stack : List Frame} {value : Fragment},
      afterOperand scope.catalog stack value token = .ok state' →
      ∃ left stack, state' = .operand (.binary op left :: stack) := by
    intro stack value h
    simp only [afterOperand, hop] at h
    split at h <;> cases h
    exact ⟨_, _, rfl⟩
  cases state with
  | start =>
    rw [State.next] at h
    split at h
    · simp_all [Token.isSymbol]
    · exact absurd h (hoperand [])
  | triggerSign =>
    rw [State.next, if_neg (by simp [hkind])] at h
    cases h
  | trigger word => cases h
  | operand stack => exact absurd h (hoperand stack)
  | name stack head =>
    rw [State.next, if_neg (by simp [Token.isSymbol, hkind, hopen])] at h
    cases hvalue : resolveName scope head (some token) with
    | error failure =>
      rw [hvalue] at h
      cases h
    | ok value =>
      rw [hvalue] at h
      exact hafter h
  | emptyCall stack signature =>
    rw [State.next, if_neg (by simp [Token.isSymbol, hkind, hclose])] at h
    cases h
  | operator stack value => exact hafter h

/-- A comparison, a sum and another comparison are not read one after the other. -/
theorem run_ne_ok_of_comparisons {state : State} {token next : Token} {tokens rest : List Token}
    {first op : Operator} {g : Fragment} (hfirst : Operator.ofToken? token = some first)
    (hcompares : first.isComparison = true)
    (hsum : Derives scope (.value .sum g) (tokens.map Token.terminal))
    (hop : Operator.ofToken? next = some op) (hcomparison : op.isComparison = true)
    (f : Fragment) :
  state.run scope (token :: (tokens ++ next :: rest)) ≠ .ok f
  := by
  intro hrun
  rw [State.run] at hrun
  cases hnext : state.next scope token with
  | error failure =>
    rw [hnext] at hrun
    cases hrun
  | ok state =>
    rw [hnext] at hrun
    obtain ⟨left, stack, rfl⟩ := exists_eq_operand_of_isComparison hfirst hcompares hnext
    have hthree : first.precedence = 3 := beq_iff_eq.mp hcompares
    have hready : Ready .sum (.binary first left :: stack) := by
      intro _
      change first.precedence < 4
      omega
    obtain ⟨state', hstate', hread⟩ := hsum.reads _ hready tokens rfl
    obtain ⟨s, hkind, hs⟩ := exists_symbol_of_isComparison hop hcomparison
    have hopen : next.kind ≠ .symbol .openParen := by
      rw [hkind]
      rintro ⟨⟩
      simp at hs
    obtain ⟨top, operand, hafter, hsettle⟩ := hstate'.next hopen
    -- the comparison is still open when the sum behind it is closed
    have hstanding : settle scope.catalog (closingLevel op) top operand
        = (.binary first left :: stack, g) := by
      rw [closingLevel_of_isComparison hcomparison, hsettle _ (Nat.le_refl _), settle, hthree]
      rfl
    change State.run scope _ (tokens ++ next :: rest) = _ at hrun
    rw [hread, State.run, hafter, afterOperand, hop] at hrun
    simp [hstanding, hcomparison, endsInComparison, hcompares, Except.bind] at hrun

/-- Another comparison cannot follow a comparison. -/
theorem run_ne_ok_of_endsInComparison {tokens : List Token} {ts us : List Terminal} {t : Terminal}
    {op : Operator} (htokens : tokens.map Token.terminal = ts ++ t :: us)
    (hends : EndsInComparison scope ts) (hop : t.operator? = some op)
    (hcomparison : op.isComparison = true) (f : Fragment) :
  State.start.run scope tokens ≠ .ok f
  := by
  intro hrun
  obtain ⟨before, sign, first, g, after, rfl, hfirst, hcompares, hsum⟩ := hends
  rw [List.append_assoc, List.cons_append] at htokens
  obtain ⟨tokens₁, rest₁, rfl, -, hrest₁⟩ := List.map_eq_append_iff.mp htokens
  obtain ⟨token, rest₂, rfl, rfl, hrest₂⟩ := List.map_eq_cons_iff.mp hrest₁
  obtain ⟨tokens₂, rest₃, rfl, rfl, hrest₃⟩ := List.map_eq_append_iff.mp hrest₂
  obtain ⟨next, rest₄, rfl, rfl, -⟩ := List.map_eq_cons_iff.mp hrest₃
  rw [Token.terminal_operator?] at hfirst hop
  obtain ⟨between, -, hbetween⟩ := State.exists_read_of_run hrun
  exact run_ne_ok_of_comparisons hfirst hcompares hsum hop hcomparison f hbetween

/-- Nothing can follow a trigger. -/
theorem run_ne_ok_of_trigger {tokens : List Token} {sign name t : Terminal} {us : List Terminal}
    (htokens : tokens.map Token.terminal = sign :: name :: t :: us)
    (hsign : sign.kind = .symbol .at) (f : Fragment) :
  State.start.run scope tokens ≠ .ok f
  := by
  intro hrun
  obtain ⟨first, rest₁, rfl, rfl, hrest₁⟩ := List.map_eq_cons_iff.mp htokens
  obtain ⟨second, rest₂, rfl, rfl, hrest₂⟩ := List.map_eq_cons_iff.mp hrest₁
  obtain ⟨third, rest₃, rfl, rfl, -⟩ := List.map_eq_cons_iff.mp hrest₂
  rw [Token.terminal_kind] at hsign
  rw [run_start_of_at hsign, State.run, State.next] at hrun
  split at hrun
  · split at hrun <;> cases hrun
  · cases hrun

/-- A line that starts with the sign of a trigger is refused for the name of the trigger, or for
what follows it. -/
theorem of_run_trigger {sign : Token} {tokens : List Token} {blamed : Option Token}
    {expected : List Expectation} (hsign : sign.kind = .symbol .at)
    (h : State.start.run scope (sign :: tokens) = .error (.unexpected blamed expected)) :
  expected = [.trigger]
    ∨ ∃ name t rest f, tokens = name :: t :: rest ∧ blamed = some t
      ∧ expected = continuationExpected
      ∧ DerivesLine scope f [sign.terminal, name.terminal]
  := by
  rw [run_start_of_at hsign] at h
  cases tokens with
  | nil =>
    cases h
    exact .inl rfl
  | cons name tokens =>
    rw [State.run, State.next] at h
    split at h
    · rename_i hname
      split at h
      · rename_i hknown
        cases tokens with
        | nil => cases h
        | cons t rest =>
          cases h
          exact .inr ⟨name, t, rest, _, rfl, rfl, rfl,
            @DerivesLine.trigger scope sign.terminal name.terminal hsign hname hknown⟩
      · cases h
    · cases h
      exact .inl rfl

/-! ### Operators before other texts -/

/-- An angle bracket compares, whatever follows it. -/
theorem exists_leading?_of_angle {c : Char} (hc : c = '<' ∨ c = '>') (rest : List Char) :
  ∃ symbol op, Symbol.leading? (c :: rest) = some symbol ∧ Operator.ofSymbol? symbol = some op
    ∧ op.isComparison = true
  := by
  cases rest with
  | nil =>
    rcases hc with rfl | rfl
    · exact ⟨.less, .less, rfl, rfl, rfl⟩
    · exact ⟨.greater, .greater, rfl, rfl, rfl⟩
  | cons d rest =>
    by_cases hd : d = '='
    · rcases hc with rfl | rfl
      · exact ⟨.lessEqual, .lessEqual, by rw [hd]; rfl, rfl, rfl⟩
      · exact ⟨.greaterEqual, .greaterEqual, by rw [hd]; rfl, rfl, rfl⟩
    · have hequal : '=' ≠ d := Ne.symm hd
      rcases hc with rfl | rfl
      · refine ⟨.less, .less, ?_, rfl, rfl⟩
        simp [Symbol.leading?, Symbol.all, Symbol.spelling, List.isPrefixOf, hequal]
      · refine ⟨.greater, .greater, ?_, rfl, rfl⟩
        simp [Symbol.leading?, Symbol.all, Symbol.spelling, List.isPrefixOf, hequal]

/-- A text that starts with a symbol means it first. -/
theorem exists_meaning_of_leading? {c : Char} {others : List Char} {symbol : Symbol}
    (hc : (Text.isLineBreak c || Lexeme.isSpace c || c == '"' || Text.isDigit c
      || Text.isWordStart c) = false)
    (hslash : c ≠ '/') (hleading : Symbol.leading? (c :: others) = some symbol) :
  ∃ us, meaning [] (c :: others) = .ofSymbol symbol :: us
  := by
  apply exists_meaning_eq_cons _ rfl
  exact Lexeme.first_of_leading? hc (fun hcomment => hslash hcomment.1) hleading

/-- What starts like a comparison is read as one. -/
theorem exists_meaning_of_comparison {s : String} (h : s ∈ comparisonSpellings)
    (rest : List Char) :
  ∃ t op us, meaning [] (s.toList ++ rest) = t :: us ∧ t.operator? = some op
    ∧ op.isComparison = true
  := by
  have hangle : ∀ {c : Char}, c = '<' ∨ c = '>' → ∀ others, ∃ t op us,
      meaning [] (c :: others) = t :: us ∧ t.operator? = some op ∧ op.isComparison = true := by
    intro c hc others
    obtain ⟨symbol, op, hleading, hop, hcomparison⟩ := exists_leading?_of_angle hc others
    obtain ⟨us, hmeaning⟩ := exists_meaning_of_leading?
      (by rcases hc with rfl | rfl <;> rfl) (by rcases hc with rfl | rfl <;> decide) hleading
    exact ⟨.ofSymbol symbol, op, us, hmeaning, hop, hcomparison⟩
  simp only [comparisonSpellings, List.mem_cons, List.not_mem_nil, or_false] at h
  rcases h with rfl | rfl | rfl | rfl | rfl | rfl
  · obtain ⟨us, hmeaning⟩ :=
      @exists_meaning_of_leading? '=' ('=' :: rest) .equalEqual rfl (by decide) rfl
    exact ⟨_, .equal, us, hmeaning, rfl, rfl⟩
  · obtain ⟨us, hmeaning⟩ :=
      @exists_meaning_of_leading? '!' ('=' :: rest) .notEqual rfl (by decide) rfl
    exact ⟨_, .notEqual, us, hmeaning, rfl, rfl⟩
  · exact hangle (.inl rfl) ('=' :: rest)
  · exact hangle (.inr rfl) ('=' :: rest)
  · exact hangle (.inl rfl) rest
  · exact hangle (.inr rfl) rest

/-- What starts like an operator is read as something, unless two slashes make a comment. -/
theorem exists_meaning_of_continuation {s : String} (h : .literal s ∈ continuationExpected)
    (hslash : s ≠ "/") (rest : List Char) :
  ∃ t us, meaning [] (s.toList ++ rest) = t :: us
  := by
  by_cases hcomparison : s ∈ comparisonSpellings
  · obtain ⟨t, -, us, hmeaning, -⟩ := exists_meaning_of_comparison hcomparison rest
    exact ⟨t, us, hmeaning⟩
  have hword : ∀ {c : Char} {others : List Char}, Text.isWordStart c = true →
      ∃ t us, meaning [] (c :: others) = t :: us := by
    intro c others hc
    obtain ⟨us, hmeaning⟩ := @exists_meaning_eq_cons c others _ rfl (by
      rw [Lexeme.first_of_isWordStart hc]
      rfl)
    exact ⟨_, us, hmeaning⟩
  simp only [continuationExpected, List.mem_cons, Expectation.literal.injEq, reduceCtorEq,
    List.not_mem_nil, or_false] at h
  rcases h with rfl | rfl | rfl | rfl | rfl | rfl | rfl | rfl | rfl | rfl | rfl | rfl | rfl
  iterate 6 exact absurd (by decide) hcomparison
  · exact ⟨_, _, meaning_symbol (s := .plus) rfl rest⟩
  · exact ⟨_, _, meaning_symbol (s := .minus) rfl rest⟩
  · exact ⟨_, _, meaning_symbol (s := .star) rfl rest⟩
  · exact absurd rfl hslash
  · exact ⟨_, _, meaning_symbol (s := .percent) rfl rest⟩
  · exact hword (c := 'a') (by decide)
  · exact hword (c := 'o') (by decide)

/-- The literal is expected by mistake: every operator is expected after a trigger, and a
comparison after a comparison. -/
inductive Misplaced (scope : Scope) (ts : List Terminal) (s : String) : Prop
  /-- Two slashes make a comment. -/
  | trigger {sign : Terminal} {rest : List Terminal} (h : ts = sign :: rest)
      (hsign : sign.kind = .symbol .at) (hs : s ≠ "/") : Misplaced scope ts s
  | comparison (hs : s ∈ comparisonSpellings) (h : EndsInComparison scope ts) :
      Misplaced scope ts s

end Grammar

/-- What stands before the region of a refusal. -/
def Parse.Unexpected.before (source : List Char) (e : Unexpected) : List Char :=
  source.take (e.region.start.column - 1)

/-- What is expected behind the text can stand there: a text that goes on with a literal is
accepted, unless the literal is misplaced, and the text is whole if the end of the line is
expected. -/
structure Parse.Expects (scope : Parse.Scope) (before : List Char)
    (expected : List Parse.Expectation) : Prop where
  literal : ∀ s, .literal s ∈ expected →
    ((∃ rest f, parseLine scope (before ++ ' ' :: (s.toList ++ rest)) = .ok f)
      ↔ ¬ Grammar.Misplaced scope (meaning [] before) s)
  endOfLine : .endOfLine ∈ expected → ∃ f, parseLine scope before = .ok f

variable {scope : Parse.Scope} {source : List Char} {ts after : List Terminal}
  {expected : List Parse.Expectation}

/-! ### What stands before a refusal -/

theorem before_of_properTokens (hunbroken : Text.Unbroken source) {others rest : List Token}
    {t : Token} (h : properTokens source = others ++ t :: rest) :
  (Parse.Unexpected.of source (some t) expected).before source
    = (others.map Token.terminal).flatMap Terminal.text
  := by
  obtain ⟨prior, -, -, hstart, hregion⟩ :=
    exists_region_eq_onLine hunbroken (by rw [h]; simp : t ∈ properTokens source)
  have hcolumn : (t.region source).start.column - 1 = t.start := by
    rw [hregion, hstart]
    rfl
  change source.take ((t.region source).start.column - 1) = _
  rw [hcolumn, take_start_of_properTokens h, List.flatMap_map]
  rfl

theorem before_of_none (hunbroken : Text.Unbroken source) :
  (Parse.Unexpected.of source none expected).before source = source
  := by
  change source.take (((endToken source).region source).start.column - 1) = source
  rw [endToken_region hunbroken]
  exact List.take_length

/-! ### What can follow terminals -/

/-- A text is accepted as what its meaning derives. -/
theorem parseLine_of_meaning {text : List Char} {f : Fragment}
    (h : Grammar.DerivesLine scope f (meaning [] text)) :
  parseLine scope text = .ok f
  := by
  rw [meaning_nil] at h
  exact Grammar.parseLine_of_derivesLine h

/-- What fits behind terminals of a text can be written behind a space. -/
theorem exists_parseLine_of_fits (hunbroken : Text.Unbroken source)
    (hterminals : terminals source = ts ++ after) (hclosed : ∀ t ∈ ts, t.IsClosed) {s : String}
    (h : Grammar.Fits scope (ts.filter Terminal.isSignificant) s) :
  ∃ rest f, parseLine scope (ts.flatMap Terminal.text ++ ' ' :: (s.toList ++ rest)) = .ok f
  := by
  obtain ⟨hs, us, hmeans, out, f, hline⟩ := h
  obtain ⟨rest, hrest⟩ := exists_meaning_append hunbroken hterminals hclosed hs hmeans out
  refine ⟨rest, f, parseLine_of_meaning ?_⟩
  rwa [hrest, ← List.append_assoc]

/-- A comparison cannot be written behind one. -/
theorem parseLine_ne_ok_of_comparison (hunbroken : Text.Unbroken source)
    (hterminals : terminals source = ts ++ after) (hclosed : ∀ t ∈ ts, t.IsClosed)
    (hcomment : ∀ t ∈ ts, t.kind ≠ .comment) {s : String} (hs : s ∈ Grammar.comparisonSpellings)
    (hends : Grammar.EndsInComparison scope (ts.filter Terminal.isSignificant))
    (rest : List Char) (f : Fragment) :
  parseLine scope (ts.flatMap Terminal.text ++ ' ' :: (s.toList ++ rest)) ≠ .ok f
  := by
  obtain ⟨t, op, us, hmeaning, hop, hcomparison⟩ := Grammar.exists_meaning_of_comparison hs rest
  have htokens := meaning_append_space hunbroken hterminals hclosed hcomment
    (c := ' ') rfl (s.toList ++ rest)
  rw [meaning_space, hmeaning, meaning_nil] at htokens
  exact Grammar.run_ne_ok_of_endsInComparison htokens hends hop hcomparison f

/-- What the terminals before a refusal offer is what their text expects. -/
theorem expects_of_offers (hunbroken : Text.Unbroken source)
    (hterminals : terminals source = ts ++ after)
    (hsign : ∀ t ∈ (ts.filter Terminal.isSignificant).head?, t.kind ≠ .symbol .at)
    (hoffers : Grammar.Offers scope (ts.filter Terminal.isSignificant) expected)
    (hplain : (∀ t ∈ ts, t.kind ≠ .comment)
      ∨ ∀ s ∈ Grammar.comparisonSpellings, .literal s ∉ expected) :
  Parse.Expects scope (ts.flatMap Terminal.text) expected
  := by
  have hclosed := isClosed_of_completable hoffers.completable
  have hmeaning := meaning_flatMap_text hunbroken hterminals hclosed
  constructor
  · intro s hs
    rw [hmeaning]
    constructor
    · rintro ⟨rest, f, hparsed⟩ (⟨hfirst, hat, -⟩ | ⟨hcomparison, hends⟩)
      · exact hsign _ (by rw [hfirst]; rfl) hat
      · rcases hplain with hcomment | hplain
        · exact parseLine_ne_ok_of_comparison hunbroken hterminals hclosed hcomment hcomparison
            hends rest f hparsed
        · exact hplain s hcomparison hs
    · intro hplaced
      apply exists_parseLine_of_fits hunbroken hterminals hclosed
      exact hoffers.fits s hs fun hcomparison hends => hplaced (.comparison hcomparison hends)
  · intro hend
    obtain ⟨f, hline⟩ := hoffers.ends hend
    exact ⟨f, parseLine_of_meaning (hmeaning ▸ hline)⟩

/-- Behind a trigger only the end of the line is expected rightly. -/
theorem expects_of_trigger (hunbroken : Text.Unbroken source)
    (hterminals : terminals source = ts ++ after) (hcomment : ∀ t ∈ ts, t.kind ≠ .comment)
    {sign name : Terminal} (htrigger : ts.filter Terminal.isSignificant = [sign, name])
    (hsign : sign.kind = .symbol .at) {f : Fragment}
    (hline : Grammar.DerivesLine scope f [sign, name]) :
  Parse.Expects scope (ts.flatMap Terminal.text) Parse.continuationExpected
  := by
  have hclosed : ∀ t ∈ ts, t.IsClosed := by
    apply isClosed_of_completable
    refine ⟨[], f, ?_⟩
    rw [htrigger]
    simpa [meaning_nil_eq_filter] using hline
  have hmeaning := meaning_flatMap_text hunbroken hterminals hclosed
  have hspace := fun out =>
    meaning_append_space hunbroken hterminals hclosed hcomment (c := ' ') rfl out
  rw [htrigger] at hmeaning hspace
  constructor
  · intro s hs
    rw [hmeaning]
    have hslash : s ≠ "/" → ∀ rest f,
        parseLine scope (ts.flatMap Terminal.text ++ ' ' :: (s.toList ++ rest)) ≠ .ok f := by
      intro hslash rest f
      obtain ⟨t, us, hstart⟩ := Grammar.exists_meaning_of_continuation hs hslash rest
      have htokens := hspace (s.toList ++ rest)
      rw [meaning_space, hstart, meaning_nil] at htokens
      exact Grammar.run_ne_ok_of_trigger htokens hsign f
    constructor
    · rintro ⟨rest, f, hparsed⟩ (⟨-, -, hne⟩ | ⟨hcomparison, -⟩)
      · exact hslash hne rest f hparsed
      · apply hslash _ rest f hparsed
        rintro rfl
        exact absurd hcomparison (by decide)
    · intro hplaced
      obtain rfl : s = "/" := by
        by_contra hne
        exact hplaced (.trigger rfl hsign hne)
      refine ⟨['/'], f, parseLine_of_meaning ?_⟩
      have hnothing : meaning [] (' ' :: ("/".toList ++ ['/'])) = [] := by decide +kernel
      rw [hspace, hnothing]
      exact hline
  · intro _
    exact ⟨f, parseLine_of_meaning (hmeaning ▸ hline)⟩

/-- Where a string is not closed a quote is expected. -/
theorem expects_of_string
    (hsign : ∀ t ∈ (significantTokens source).head?, t.kind ≠ .symbol .at)
    (hquote : ∃ rest f, parseLine scope (source ++ ' ' :: '"' :: rest) = .ok f) :
  Parse.Expects scope source [.literal "\""]
  := by
  constructor
  · intro s hs
    cases List.mem_singleton.mp hs
    refine iff_of_true hquote ?_
    rintro (⟨hfirst, hat, -⟩ | ⟨hcomparison, -⟩)
    · rw [meaning_nil] at hfirst
      obtain ⟨sign, rest, htokens, rfl, -⟩ := List.map_eq_cons_iff.mp hfirst
      exact hsign sign (by rw [htokens]; rfl) hat
    · exact absurd hcomparison (by decide)
  · intro hend
    cases List.mem_singleton.mp hend

theorem head_ne_at {tokens : List Token} (h : ∀ t ∈ tokens.head?, t.kind ≠ .symbol .at) :
  ∀ t ∈ (tokens.map Token.terminal).head?, t.kind ≠ .symbol .at
  := by
  cases tokens with
  | nil => rintro t ⟨⟩
  | cons token rest =>
    rintro t ⟨⟩
    exact h token rfl

/-- What a refused text is said to expect can stand in the place of what was refused, but for
misplaced operators. -/
theorem expects_of_parseLine (hunbroken : Text.Unbroken source) {token : Option Token}
    (h : parseLine scope source = .error (.unexpected token expected)) :
  Parse.Expects scope ((Parse.Unexpected.of source token expected).before source) expected
  := by
  have hterminals : ∀ {others rest : List Token} {t : Token},
      properTokens source = others ++ t :: rest →
      terminals source = others.map Token.terminal ++ t.terminal :: rest.map Token.terminal := by
    intro others rest t hproper
    rw [← map_terminal_properTokens, hproper, List.map_append, List.map_cons]
  by_cases hsign : ∀ t ∈ (significantTokens source).head?, t.kind ≠ .symbol .at
  · rw [parseLine, Grammar.run_start_of_not_at hsign] at h
    cases Grammar.located_of_run h with
    | @token before after t _ htokens hoffers =>
      obtain ⟨others, rest, hproper, rfl⟩ := exists_properTokens_of_significantTokens htokens
      have hterminals := hterminals hproper
      have hfirst : ∀ u ∈ (others.filter (·.kind.isSignificant)).head?, u.kind ≠ .symbol .at := by
        intro u hu
        apply hsign
        rw [htokens, List.head?_append, Option.mem_def.mp hu]
        rfl
      rw [← filter_map_terminal] at hoffers
      rw [before_of_properTokens hunbroken hproper]
      refine expects_of_offers hunbroken hterminals ?_ hoffers
        (.inl (ne_comment_of_terminals hunbroken hterminals))
      rw [filter_map_terminal]
      exact head_ne_at hfirst
    | atEnd hoffers hplain =>
      have hhead := head_ne_at hsign
      rw [map_terminal_significantTokens] at hoffers hhead
      have hexpects := expects_of_offers hunbroken (List.append_nil (terminals source)).symm
        hhead hoffers (.inr hplain)
      rwa [flatMap_text_terminals, ← before_of_none hunbroken] at hexpects
    | string htokens hkind hunterminated hclosed =>
      obtain ⟨others, rest, hproper, rfl⟩ := exists_properTokens_of_significantTokens htokens
      rw [before_of_none hunbroken]
      exact expects_of_string hsign
        (exists_parseLine_append_quote hunbroken hproper hkind hunterminated hclosed)
  · obtain ⟨sign, hhead, hat⟩ :
        ∃ sign ∈ (significantTokens source).head?, sign.kind = .symbol .at := by
      simpa using hsign
    obtain ⟨tokens, htokens⟩ := List.head?_eq_some_iff.mp hhead
    rw [parseLine, htokens] at h
    rcases Grammar.of_run_trigger hat h with
      rfl | ⟨name, t, rest, f, rfl, rfl, rfl, hline⟩
    · exact ⟨by simp, by simp⟩
    · obtain ⟨others, after, hproper, hothers⟩ :=
        @exists_properTokens_of_significantTokens source [sign, name] rest t htokens
      have hterminals := hterminals hproper
      rw [before_of_properTokens hunbroken hproper]
      refine expects_of_trigger hunbroken hterminals
        (ne_comment_of_terminals hunbroken hterminals) ?_ hat hline
      rw [filter_map_terminal, hothers]
      rfl

/-- A comparison after a comparison. -/
def chainedComparison : List Char :=
  "1 < 2 < 3".toList

/-- The second angle bracket, which is refused. -/
def secondAngle : Token :=
  ⟨.symbol .less, 6, ['<'], {}, 0⟩

theorem unbroken_chainedComparison :
  Text.Unbroken chainedComparison
  := Text.unbroken_of_all rfl

theorem parseLine_chainedComparison :
  parseLine {} chainedComparison
    = .error (.unexpected (some secondAngle) Parse.continuationExpected)
  := by
  have htokens : significantTokens chainedComparison
      = [⟨.integer, 0, ['1'], {}, 0⟩, ⟨.symbol .less, 2, ['<'], {}, 0⟩,
        ⟨.integer, 4, ['2'], {}, 0⟩, secondAngle, ⟨.integer, 8, ['3'], {}, 0⟩] := by
    decide +kernel
  rw [parseLine, htokens]
  rfl

/-- All that is expected in place of the second comparison can stand there but comparisons. -/
theorem expects_of_parseLine_chainedComparison :
  Text.Unbroken chainedComparison
    ∧ parseLine {} chainedComparison
      = .error (.unexpected (some secondAngle) Parse.continuationExpected)
    ∧ Parse.Expects {}
        ((Parse.Unexpected.of chainedComparison (some secondAngle)
          Parse.continuationExpected).before chainedComparison)
        Parse.continuationExpected
  := ⟨unbroken_chainedComparison, parseLine_chainedComparison,
    expects_of_parseLine unbroken_chainedComparison parseLine_chainedComparison⟩

/-- Not all that is expected can stand in the place of what was refused. -/
theorem not_accepted_chainedComparison :
  ¬ ∀ (scope : Parse.Scope) (source : List Char) (token : Option Token)
      (expected : List Parse.Expectation), Text.Unbroken source →
    parseLine scope source = .error (.unexpected token expected) →
    (∀ s, .literal s ∈ expected → ∃ rest f,
      parseLine scope ((Parse.Unexpected.of source token expected).before source
        ++ ' ' :: (s.toList ++ rest)) = .ok f)
    ∧ (.endOfLine ∈ expected →
      ∃ f, parseLine scope ((Parse.Unexpected.of source token expected).before source) = .ok f)
  := by
  intro h
  obtain ⟨rest, f, hparsed⟩ := (h {} chainedComparison _ _ unbroken_chainedComparison
    parseLine_chainedComparison).1 "<" (by decide)
  have hbefore : (Parse.Unexpected.of chainedComparison (some secondAngle)
      Parse.continuationExpected).before chainedComparison = "1 < 2 ".toList := by
    decide +kernel
  have hterminals : terminals "1 < 2 ".toList
      = [⟨.integer, ['1'], false⟩, ⟨.whitespace, [' '], false⟩, ⟨.symbol .less, ['<'], false⟩,
        ⟨.whitespace, [' '], false⟩, ⟨.integer, ['2'], false⟩, ⟨.whitespace, [' '], false⟩] := by
    decide +kernel
  have hends : Grammar.EndsInComparison {} ((terminals "1 < 2 ".toList).filter
      Terminal.isSignificant) := by
    rw [hterminals]
    exact ⟨[⟨.integer, ['1'], false⟩], ⟨.symbol .less, ['<'], false⟩, .less, _,
      [⟨.integer, ['2'], false⟩], rfl, rfl, rfl, .loosen (by decide) (.integer rfl)⟩
  have hrefused := @parseLine_ne_ok_of_comparison {} "1 < 2 ".toList
    (terminals "1 < 2 ".toList) [] (Text.unbroken_of_all rfl) (List.append_nil _).symm
    (by rw [hterminals]; simp [Terminal.IsClosed]) (by rw [hterminals]; simp) "<" (by decide) hends
    rest f
  rw [flatMap_text_terminals] at hrefused
  rw [hbefore] at hparsed
  exact hrefused hparsed

end TriggerLang
