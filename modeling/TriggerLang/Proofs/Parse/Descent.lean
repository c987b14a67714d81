import TriggerLang.Fragment.Equality
import TriggerLang.Proofs.Grammar.Completeness
import TriggerLang.Proofs.Grammar.Completion
import TriggerLang.Proofs.Parse.Cursor

/-!
# Reading by descent

Reading a line with a cursor, procedure by procedure, comes to the same as reading it token by
token with a stack: what a procedure returns is what stands on the stack when it was called.
Only a comparison behind a comparison is noticed later, by the caller that finds it where a
bracket, a comma or the end of the line should be; it is refused with the same words.  So no
check of the cursor ever fails, and reading ends before it goes deeper than eight times the
number of tokens.
-/

namespace TriggerLang

theorem Level.rank_injective {level level' : Level} (h : level.rank = level'.rank) :
  level = level'
  := by
  cases level <;> cases level' <;> first | rfl | cases h

theorem Operator.level_eq_comparison_iff {op : Operator} :
  op.level = .comparison ↔ op.isComparison = true
  := by
  cases op <;> decide

namespace Parse

open Grammar (Ready)

/-! ### States after an operand -/

section

variable {scope : Scope} {stack top : List Frame} {value operand : Fragment} {rest : List Token}

/-- States after operands go on in the same way if closing frames leads to the same. -/
theorem run_operator_congr (hexpected : expectedAfter top = expectedAfter stack)
    (hend : settle scope.catalog 0 top operand = settle scope.catalog 0 stack value)
    (hnext : ∀ t ∈ rest.head?, ∀ op, Operator.ofToken? t = some op →
      settle scope.catalog (closingLevel op) top operand
        = settle scope.catalog (closingLevel op) stack value) :
  (State.operator top operand).run scope rest = (State.operator stack value).run scope rest
  := by
  cases rest with
  | nil => simp only [State.run, State.finish, endAfterOperand, hexpected, hend]
  | cons t rest =>
    have hafter : afterOperand scope.catalog top operand t
        = afterOperand scope.catalog stack value t := by
      simp only [afterOperand, hexpected, hend]
      cases hop : Operator.ofToken? t with
      | none => rfl
      | some op => simp only [hnext t rfl op hop]
    rw [State.run, State.run, State.next, State.next, hafter]

/-- A minus sign is closed by whatever follows its operand. -/
theorem run_operator_negative :
  (State.operator (.negative :: stack) value).run scope rest
    = (State.operator stack (negate value)).run scope rest
  := run_operator_congr rfl rfl fun _ _ _ _ => rfl

/-- An operator is closed by what follows its right operand, unless that is one to be closed
before. -/
theorem run_operator_binary {op : Operator}
    (hnext : ∀ t ∈ rest.head?, ∀ next, Operator.ofToken? t = some next →
      closingLevel next ≤ op.precedence) :
  (State.operator (.binary op value :: stack) operand).run scope rest
    = (State.operator stack (op.apply scope.catalog value operand)).run scope rest
  := by
  apply run_operator_congr
  · rfl
  · rw [settle, if_pos (Nat.zero_le _)]
  · intro t ht next hop
    rw [settle, if_pos (hnext t ht next hop)]

/-- An operator takes the operand before it. -/
theorem run_operator_cons {op : Operator} (hready : Ready op.level stack) {t : Token}
    (hop : Operator.ofToken? t = some op) :
  (State.operator stack value).run scope (t :: rest)
    = (State.operand (.binary op value :: stack)).run scope rest
  := by
  have hstanding : Grammar.Standing scope op.leftLevel.rank stack value (.operator stack value) :=
    .operator fun _ _ => rfl
  have hterminal : t.terminal.operator? = some op := hop
  obtain ⟨state, rfl, hrun⟩ := hstanding.operator_next hready hterminal [t] rfl
  exact hrun rest

/-- A comparison behind a comparison is refused. -/
theorem run_operator_comparison {op next : Operator} (hop : op.isComparison = true) {t : Token}
    (hnext : Operator.ofToken? t = some next) (hcomparison : next.isComparison = true) :
  (State.operator (.binary op value :: stack) operand).run scope (t :: rest)
    = .error (.unexpected (some t) (expectedAfter stack))
  := by
  have hlevel : ¬ closingLevel next ≤ op.precedence := by
    rw [closingLevel, if_pos hcomparison]
    rw [Operator.isComparison, beq_iff_eq] at hop hcomparison
    omega
  have hkept : settle scope.catalog (closingLevel next) (.binary op value :: stack) operand
      = (.binary op value :: stack, operand) := by
    rw [settle, if_neg hlevel]
  rw [State.run, State.next, afterOperand, hnext]
  simp only [hkept, hcomparison, endsInComparison, hop]
  rfl

end

/-! ### The token behind an operand -/

/-- The next token, if it is an operator, binds more loosely than the rank. -/
def LooserNext (rank : Nat) (rest : List Token) : Prop :=
  ∀ t ∈ rest.head?, ∀ op, Operator.ofToken? t = some op → op.precedence < rank

/-- The next token is a comparison. -/
def ComparisonNext (rest : List Token) : Prop :=
  ∃ t ∈ rest.head?, ∃ op, Operator.ofToken? t = some op ∧ op.level = .comparison

/-- What is looser than the next tighter level, and not of the level, is looser than it. -/
theorem LooserNext.of_ne {level : Level} {rest : List Token}
    (h : LooserNext (level.rank + 1) rest)
    (hne : ∀ t ∈ rest.head?, ∀ op, Operator.ofToken? t = some op → op.level ≠ level) :
  LooserNext level.rank rest
  := by
  intro t ht op hop
  have hrank : op.level.rank ≠ level.rank :=
    fun hrank => hne t ht op hop (Level.rank_injective hrank)
  rw [op.level_rank] at hrank
  have hle := h t ht op hop
  omega

/-- Nothing is looser than an expression. -/
theorem LooserNext.ofToken?_eq_none {t : Token} {rest : List Token} (h : LooserNext 1 (t :: rest)) :
  Operator.ofToken? t = none
  := by
  cases hop : Operator.ofToken? t with
  | none => rfl
  | some op =>
    have hlt := h t rfl op hop
    have hpos : 0 < op.precedence := by cases op <;> decide
    omega

/-- All operators are looser than a unary expression. -/
theorem looserNext_of_six_le {rank : Nat} (h : 6 ≤ rank) (rest : List Token) :
  LooserNext rank rest
  := by
  intro t _ op _
  have hlt : op.precedence < 6 := by cases op <;> decide
  omega

namespace Cursor

/-! ### What procedures come to -/

/-- What a procedure for a level returns where the states with a stack come to an outcome, and
`n` tokens remain. -/
inductive Agrees (scope : Scope) (source : List Char) (n : Nat) (level : Level)
    (stack : List Frame) (outcome : Except Failure Fragment) : Except Stop (Fragment × Nat) → Prop
  /-- The line is refused. -/
  | refused {failure : Failure} (hrefused : outcome = .error failure) :
      Agrees scope source n level stack outcome (.error (.ofFailure source failure))
  /-- The value stands on the stack, and what follows does not belong to it. -/
  | read {value : Fragment} {p : Nat} {rest : List Token} (hat : At source rest p)
      (hshorter : rest.length < n) (hlooser : LooserNext level.rank rest)
      (hrun : outcome = (State.operator stack value).run scope rest) :
      Agrees scope source n level stack outcome (.ok (value, p))
  /-- A comparison follows that the line is refused at, and the caller will find it. -/
  | chained {value : Fragment} {p : Nat} {rest : List Token} (hat : At source rest p)
      (hshorter : rest.length < n) (hlevel : level.rank ≤ 3) (hnext : ComparisonNext rest)
      (hrefused : outcome = .error (.unexpected rest.head? (expectedAfter stack))) :
      Agrees scope source n level stack outcome (.ok (value, p))

/-- The procedure returns what the states come to wherever an expression of the level may stand
and at most `n` tokens remain.  A minus sign starts no primary expression. -/
def Follows (scope : Scope) (source : List Char) (n : Nat) (level : Level) (reader : Reader) :
    Prop :=
  ∀ stack ⦃rest p⦄, At source rest p → rest.length ≤ n → Ready level stack →
    (level = .primary → ∀ t ∈ rest.head?, t.kind ≠ .symbol .minus) →
    Agrees scope source rest.length level stack ((State.operand stack).run scope rest) (reader p)

section

variable {scope : Scope} {source : List Char} {m n : Nat} {level inner : Level}
  {stack top : List Frame} {outcome : Except Failure Fragment}

theorem Agrees.mono {x : Except Stop (Fragment × Nat)}
    (h : Agrees scope source m level stack outcome x) (hle : m ≤ n) :
  Agrees scope source n level stack outcome x
  := by
  cases h with
  | refused hrefused => exact .refused hrefused
  | read hat hshorter hlooser hrun => exact .read hat (by omega) hlooser hrun
  | chained hat hshorter hlevel hnext hrefused =>
    exact .chained hat (by omega) hlevel hnext hrefused

/-- Nothing that follows belongs to a primary expression. -/
theorem Agrees.primary {value : Fragment} {p : Nat} {rest : List Token} (hat : At source rest p)
    (hshorter : rest.length < n) (hrun : outcome = (State.operator stack value).run scope rest) :
  Agrees scope source n .primary stack outcome (.ok (value, p))
  := .read hat hshorter (looserNext_of_six_le (by decide) rest) hrun

theorem Follows.mono {reader : Reader} (h : Follows scope source n level reader) (hle : m ≤ n) :
  Follows scope source m level reader
  := fun stack _ _ hat hlength => h stack hat (hlength.trans hle)

/-- For all levels but that of primary expressions the next token does not matter. -/
theorem Follows.agrees {reader : Reader} (h : Follows scope source n level reader)
    (hprimary : level ≠ .primary) (stack : List Frame) {rest : List Token} {p : Nat}
    (hat : At source rest p) (hle : rest.length ≤ n) (hready : Ready level stack) :
  Agrees scope source rest.length level stack ((State.operand stack).run scope rest) (reader p)
  := h stack hat hle hready fun hlevel => absurd hlevel hprimary

/-- What is done with the value of another procedure agrees if it does so in either case. -/
theorem Agrees.bind {x : Except Stop (Fragment × Nat)}
    {k : Fragment × Nat → Except Stop (Fragment × Nat)}
    (h : Agrees scope source m inner top outcome x)
    (hread : ∀ {value p rest}, At source rest p → rest.length < m → LooserNext inner.rank rest →
      outcome = (State.operator top value).run scope rest →
      Agrees scope source n level stack outcome (k (value, p)))
    (hchained : ∀ {value p rest}, At source rest p → rest.length < m → inner.rank ≤ 3 →
      ComparisonNext rest → outcome = .error (.unexpected rest.head? (expectedAfter top)) →
      Agrees scope source n level stack outcome (k (value, p))) :
  Agrees scope source n level stack outcome (x >>= k)
  := by
  cases h with
  | refused hrefused => exact .refused hrefused
  | read hat hshorter hlooser hrun => exact hread hat hshorter hlooser hrun
  | chained hat hshorter hlevel hnext hrefused =>
    exact hchained hat hshorter hlevel hnext hrefused

/-! ### Chains -/

/-- A comparison that the line is refused at is left to the caller. -/
theorem agrees_readSteps_of_comparisonNext (hcomparison : level ≠ .comparison) {operand : Reader}
    {steps p : Nat} {value : Fragment} {rest : List Token}
    (hat : At source rest p) (hshorter : rest.length < n) (hsteps : 0 < steps)
    (hlevel : level.rank ≤ 3) (hnext : ComparisonNext rest)
    (hrefused : outcome = .error (.unexpected rest.head? (expectedAfter stack))) :
  Agrees scope source n level stack outcome
    (readSteps scope (lineTokens source) level operand steps value p)
  := by
  obtain ⟨steps, rfl⟩ := Nat.exists_eq_succ_of_ne_zero (Nat.ne_of_gt hsteps)
  obtain ⟨t, ht, op, hop, hlevel'⟩ := id hnext
  rw [readSteps_of_ne hat]
  · exact .chained hat hshorter hlevel hnext hrefused
  · intro u hu op' hop'
    cases Option.mem_unique ht hu
    cases hop.symm.trans hop'
    rw [hlevel']
    exact hcomparison.symm

/-- The operators of a level, and the operands behind them, are read as by the states. -/
theorem agrees_readSteps (hcomparison : level ≠ .comparison) (hprimary : inner ≠ .primary)
    (htight : inner.rank = level.rank + 1) {operand : Reader}
    (hoperand : Follows scope source n inner operand) (hready : Ready level stack)
    {steps p : Nat} {value : Fragment} {rest : List Token}
    (hat : At source rest p) (hshorter : rest.length < n) (hsteps : rest.length < steps)
    (hlooser : LooserNext inner.rank rest)
    (hrun : outcome = (State.operator stack value).run scope rest) :
  Agrees scope source n level stack outcome
    (readSteps scope (lineTokens source) level operand steps value p)
  := by
  induction steps generalizing value rest p with
  | zero => exact absurd hsteps (Nat.not_lt_zero _)
  | succ steps ih =>
    by_cases hnext : ∃ t ∈ rest.head?, ∃ op, Operator.ofToken? t = some op ∧ op.level = level
    · obtain ⟨t, ht, op, hop, rfl⟩ := hnext
      obtain ⟨rest, rfl⟩ := List.head?_eq_some_iff.mp ht
      rw [List.length_cons] at hshorter hsteps
      have hready' : Ready inner (.binary op value :: stack) := by
        intro _
        rw [htight, op.level_rank]
        exact Nat.lt_succ_self _
      have hright := hoperand.agrees hprimary _ hat.succ (by omega) hready'
      rw [← run_operator_cons hready hop, ← hrun] at hright
      rw [readSteps_of_level hat hop]
      apply hright.bind
      · intro right p' rest' hat' hlength hlooser' hrun'
        refine ih hat' (by omega) (by omega) hlooser' (hrun'.trans (run_operator_binary ?_))
        intro u hu next hop'
        have hle := hlooser' u hu next hop'
        rw [htight, op.level_rank] at hle
        -- a comparison closes less than its own level, but the operator is none
        have hne : op.precedence ≠ 3 := by
          intro h
          exact hcomparison (Operator.level_eq_comparison_iff.mpr (beq_iff_eq.mpr h))
        rw [closingLevel]
        split
        · rename_i hnext
          rw [Operator.isComparison, beq_iff_eq] at hnext
          omega
        · omega
      · intro right p' rest' hat' hlength hlevel hnext hrefused
        exact agrees_readSteps_of_comparisonNext hcomparison hat' (by omega) (by omega) (by omega)
          hnext hrefused
    · have hne : ∀ t ∈ rest.head?, ∀ op, Operator.ofToken? t = some op → op.level ≠ level :=
        fun t ht op hop hlevel => hnext ⟨t, ht, op, hop, hlevel⟩
      rw [readSteps_of_ne hat hne]
      exact .read hat hshorter (.of_ne (htight ▸ hlooser) hne) hrun

theorem follows_readChain (hcomparison : level ≠ .comparison) (hprimary : inner ≠ .primary)
    (htight : inner.rank = level.rank + 1) {operand : Reader}
    (hoperand : Follows scope source n inner operand) {steps : Nat} (hsteps : n < steps) :
  Follows scope source n level (readChain scope (lineTokens source) level operand steps)
  := by
  intro stack rest p hat hle hready _
  have hfirst := hoperand.agrees hprimary stack hat hle (hready.tighten (by omega))
  apply hfirst.bind
  · intro left p' rest' hat' hlength hlooser hrun
    exact agrees_readSteps hcomparison hprimary htight (hoperand.mono hle) hready hat' hlength
      (by omega) hlooser hrun
  · intro left p' rest' hat' hlength hlevel hnext hrefused
    exact agrees_readSteps_of_comparisonNext hcomparison hat' hlength (by omega) (by omega) hnext
      hrefused

/-! ### Comparisons and signs -/

theorem not_isComparison_of_not_comparisonNext {rest : List Token} (h : ¬ ComparisonNext rest) :
  ∀ t ∈ rest.head?, ∀ op, Operator.ofToken? t = some op → op.level ≠ .comparison
  := fun t ht op hop hlevel => h ⟨t, ht, op, hop, hlevel⟩

/-- An operand and the comparison behind it are read as by the states. -/
theorem agrees_readCompared {operand : Reader} (hoperand : Follows scope source n .sum operand)
    (hready : Ready .comparison stack) {p : Nat} {value : Fragment} {rest : List Token}
    (hat : At source rest p) (hshorter : rest.length < n) (hlooser : LooserNext 4 rest)
    (hrun : outcome = (State.operator stack value).run scope rest) :
  Agrees scope source n .comparison stack outcome
    (readCompared scope (lineTokens source) operand value p)
  := by
  by_cases hnext : ComparisonNext rest
  · obtain ⟨t, ht, op, hop, hlevel⟩ := hnext
    obtain ⟨rest, rfl⟩ := List.head?_eq_some_iff.mp ht
    rw [List.length_cons] at hshorter
    have hcomparison : op.isComparison = true := Operator.level_eq_comparison_iff.mp hlevel
    have hprecedence : op.precedence = 3 := beq_iff_eq.mp hcomparison
    have hready' : Ready .sum (.binary op value :: stack) := by
      intro _
      change op.precedence < 4
      omega
    have hright := hoperand.agrees (by decide) _ hat.succ (by omega) hready'
    rw [← run_operator_cons (hlevel ▸ hready) hop, ← hrun] at hright
    rw [readCompared_of_isComparison hat hop hcomparison]
    apply hright.bind
    · intro right p' rest' hat' hlength hlooser' hrun'
      by_cases hchain : ComparisonNext rest'
      · obtain ⟨u, hu, next, hop', hlevel'⟩ := id hchain
        obtain ⟨rest', rfl⟩ := List.head?_eq_some_iff.mp hu
        refine .chained hat' (by omega) le_rfl hchain (hrun'.trans ?_)
        exact run_operator_comparison hcomparison hop'
          (Operator.level_eq_comparison_iff.mp hlevel')
      · have hne := not_isComparison_of_not_comparisonNext hchain
        have hlooser'' : LooserNext Level.comparison.rank rest' := .of_ne hlooser' hne
        refine .read hat' (by omega) hlooser'' (hrun'.trans (run_operator_binary ?_))
        intro u hu next hop'
        have hlt : next.precedence < 3 := hlooser'' u hu next hop'
        rw [closingLevel]
        split <;> omega
    · intro right p' rest' hat' hlength hlevel' hnext hrefused
      exact absurd hlevel' (by decide)
  · have hne := not_isComparison_of_not_comparisonNext hnext
    rw [readCompared_of_not hat]
    · exact .read hat hshorter (.of_ne hlooser hne) hrun
    · intro t ht op hop
      exact Bool.eq_false_iff.mpr fun h => hne t ht op hop (Operator.level_eq_comparison_iff.mpr h)

theorem follows_readComparison {operand : Reader} (hoperand : Follows scope source n .sum operand) :
  Follows scope source n .comparison (readComparison scope (lineTokens source) operand)
  := by
  intro stack rest p hat hle hready _
  have hfirst := hoperand.agrees (by decide) stack hat hle (hready.tighten (by decide))
  apply hfirst.bind
  · intro left p' rest' hat' hlength hlooser hrun
    exact agrees_readCompared (hoperand.mono hle) hready hat' hlength hlooser hrun
  · intro left p' rest' hat' hlength hlevel hnext hrefused
    exact absurd hlevel (by decide)

/-- The signs before an operand, and the operand, are read as by the states. -/
theorem follows_readUnary {operand primary : Reader}
    (hoperand : ∀ m < n, Follows scope source m .unary operand)
    (hprimary : Follows scope source n .primary primary) :
  Follows scope source n .unary (readUnary (lineTokens source) operand primary)
  := by
  intro stack rest p hat hle hready _
  by_cases hminus : ∃ t ∈ rest.head?, t.kind = .symbol .minus
  · obtain ⟨t, ht, hminus⟩ := hminus
    obtain ⟨rest, rfl⟩ := List.head?_eq_some_iff.mp ht
    have hnext : (State.operand stack).run scope (t :: rest)
        = (State.operand (.negative :: stack)).run scope rest := by
      rw [State.run, State.next, readOperand, hminus]
      rfl
    have hinner := (hoperand rest.length hle).agrees (by decide) (.negative :: stack) hat.succ le_rfl
      fun hlt => absurd hlt (by decide)
    rw [readUnary_of_minus hat hminus, hnext]
    apply hinner.bind
    · intro value p' rest' hat' hlength hlooser hrun
      exact .read hat' (Nat.lt_succ_of_lt hlength) hlooser (hrun.trans run_operator_negative)
    · intro value p' rest' hat' hlength hlevel hnext hrefused
      exact absurd hlevel (by decide)
  · have hne : ∀ t ∈ rest.head?, t.kind ≠ .symbol .minus :=
      fun t ht hkind => hminus ⟨t, ht, hkind⟩
    have hinner := hprimary stack hat hle (hready.tighten (by decide)) fun _ => hne
    rw [readUnary_of_ne hat hne]
    generalize primary p = x at hinner
    cases hinner with
    | refused hrefused => exact .refused hrefused
    | read hat' hshorter _ hrun =>
      exact .read hat' hshorter (looserNext_of_six_le le_rfl _) hrun
    | chained hat' hshorter hlevel => exact absurd hlevel (by decide)

/-! ### Brackets -/

/-- After an expression within the stack the symbol is expected, and leads on to the state that
the expression makes. -/
structure Awaits (scope : Scope) (stack : List Frame) (s : Symbol) (state : Fragment → State) :
    Prop where
  expected : expectedAfter stack = [.literal (String.ofList s.spelling)]
  operator : Operator.ofSymbol? s = none
  next : ∀ value t, Operator.ofToken? t = none →
    afterOperand scope.catalog stack value t
      = if t.isSymbol s then .ok (state value)
        else .error (.unexpected (some t) (expectedAfter stack))
  finish : ∀ value,
    endAfterOperand scope.catalog stack value = .error (.unexpected none (expectedAfter stack))

theorem awaits_group (scope : Scope) (stack : List Frame) :
  Awaits scope (.group :: stack) .closeParen (.operator stack)
  where
    expected := rfl
    operator := rfl
    next value t hop := by simp only [afterOperand, hop, settle]
    finish _ := rfl

theorem awaits_argument (scope : Scope) (fields : Fragment.Fields) (parameter : Parameter)
    (stack : List Frame) :
  Awaits scope (.argument fields parameter [] :: stack) .closeParen
    fun value => .operator stack (.mapping (addArgument fields parameter value))
  where
    expected := rfl
    operator := rfl
    next value t hop := by simp only [afterOperand, hop, settle]
    finish _ := rfl

theorem awaits_argument_cons (scope : Scope) (fields : Fragment.Fields)
    (parameter next : Parameter) (remaining : List Parameter) (stack : List Frame) :
  Awaits scope (.argument fields parameter (next :: remaining) :: stack) .comma
    fun value => .operand (.argument (addArgument fields parameter value) next remaining :: stack)
  where
    expected := rfl
    operator := rfl
    next value t hop := by simp only [afterOperand, hop, settle]
    finish _ := rfl

/-- An expression and the symbol that is expected behind it are read as by the states. -/
theorem Agrees.expect {s : Symbol} {state : Fragment → State} (hawaits : Awaits scope top s state)
    {x : Except Stop (Fragment × Nat)} (h : Agrees scope source m .expression top outcome x)
    {k : Fragment → Reader}
    (hk : ∀ {value p rest}, At source rest p → rest.length + 1 < m →
      outcome = (state value).run scope rest →
      Agrees scope source n level stack outcome (k value p)) :
  Agrees scope source n level stack outcome
    (x >>= fun (value, p) => expect (lineTokens source) source s p >>= k value)
  := by
  have hrefuse : ∀ {value p rest}, At source rest p →
      (∀ t ∈ rest.head?, t.isSymbol s = false) →
      outcome = .error (.unexpected rest.head? (expectedAfter top)) →
      Agrees scope source n level stack outcome
        (Cursor.expect (lineTokens source) source s p >>= k value) := by
    intro value p rest hat hs hrefused
    rw [hat.expect_eq_error hs, ← hawaits.expected]
    exact .refused hrefused
  apply h.bind
  · intro value p rest hat hlength hlooser hrun
    cases rest with
    | nil =>
      exact hrefuse hat (fun t ht => absurd ht (Option.not_mem_none t))
        (hrun.trans (hawaits.finish value))
    | cons t rest =>
      have hnext := hawaits.next value t hlooser.ofToken?_eq_none
      rw [State.run, State.next, hnext] at hrun
      by_cases hs : t.isSymbol s = true
      · rw [if_pos hs] at hrun
        change Agrees _ _ _ _ _ _ (Cursor.expect (lineTokens source) source s p >>= k value)
        rw [hat.expect_eq hs]
        exact hk hat.succ hlength hrun
      · rw [if_neg hs] at hrun
        exact hrefuse hat (by simpa using hs) hrun
  · rintro value p rest hat hlength - ⟨t, ht, op, hop, -⟩ hrefused
    apply hrefuse hat _ hrefused
    intro u hu
    cases Option.mem_unique ht hu
    -- an operator is not the symbol that is expected
    by_contra hs
    have hkind : t.kind = .symbol s := by simpa [Token.isSymbol] using hs
    rw [Operator.ofToken?, hkind] at hop
    exact Option.some_ne_none op (hop.symm.trans hawaits.operator)

/-! ### Names -/

/-- A name without an opening bracket behind it stands for its operand. -/
theorem run_name_of_not_openParen {head : Token} {rest : List Token}
    (h : ∀ t ∈ rest.head?, t.isSymbol .openParen = false) :
  (State.name stack head).run scope rest
    = (resolveName scope head rest.head?).bind fun value =>
        (State.operator stack value).run scope rest
  := by
  cases rest with
  | nil => rfl
  | cons t rest =>
    have hopen : ¬ t.isSymbol .openParen = true := by simp [h t rfl]
    rw [State.run, State.next, if_neg hopen, List.head?_cons]
    cases resolveName scope head (some t) <;> rfl

/-- The remaining arguments of a call are read as by the states. -/
theorem agrees_readArguments {argument : Reader}
    (hargument : Follows scope source n .expression argument) {fields : Fragment.Fields}
    {parameter : Parameter} {remaining : List Parameter} {p : Nat} {rest : List Token}
    (hat : At source rest p) (hle : rest.length ≤ n)
    (hrun : outcome
      = (State.operand (.argument fields parameter remaining :: stack)).run scope rest) :
  Agrees scope source rest.length .primary stack outcome
    (argument p >>= fun (value, p) =>
      readArguments source (lineTokens source) argument false remaining
        (addArgument fields parameter value) p)
  := by
  induction remaining generalizing fields parameter p rest with
  | nil =>
    have hfirst := hargument.agrees (by decide) (.argument fields parameter [] :: stack) hat hle
      fun _ => trivial
    rw [← hrun] at hfirst
    simp only [readArguments_nil]
    refine Agrees.expect (awaits_argument scope fields parameter stack) hfirst ?_
      (k := fun value p => .ok (.mapping (addArgument fields parameter value), p))
    intro value p' rest' hat' hlength hrun'
    exact .primary hat' (by omega) hrun'
  | cons next remaining ih =>
    have hfirst := hargument.agrees (by decide)
      (.argument fields parameter (next :: remaining) :: stack) hat hle fun _ => trivial
    rw [← hrun] at hfirst
    simp only [readArguments_further]
    have hawaits := awaits_argument_cons scope fields parameter next remaining stack
    refine Agrees.expect hawaits hfirst ?_
      (k := fun value p => argument p >>= fun (further, p) =>
        readArguments source (lineTokens source) argument false remaining
          (addArgument (addArgument fields parameter value) next further) p)
    intro value p' rest' hat' hlength hrun'
    exact (ih hat' (by omega) hrun').mono (by omega)

/-- The call of a function is read as by the states. -/
theorem agrees_readArguments_first {argument : Reader}
    (hargument : Follows scope source n .expression argument) {signature : Signature} {head : Token}
    (hfunction : scope.catalog.get? head.word = some signature) {opening : Token}
    (hopen : opening.isSymbol .openParen = true) {p : Nat} {rest : List Token}
    (hat : At source rest p) (hle : rest.length ≤ n) :
  Agrees scope source (rest.length + 1) .primary stack
    ((State.name stack head).run scope (opening :: rest))
    (readArguments source (lineTokens source) argument true signature.parameters
      [("function", .string signature.key)] p)
  := by
  rw [State.run, State.next, if_pos hopen, openCall, hfunction]
  simp only
  cases signature.parameters with
  | nil =>
    change Agrees _ _ _ _ _ ((State.emptyCall stack signature).run scope rest) _
    rw [readArguments_nil]
    by_cases hclose : ∃ t ∈ rest.head?, t.isSymbol .closeParen = true
    · obtain ⟨t, ht, hclose⟩ := hclose
      obtain ⟨rest, rfl⟩ := List.head?_eq_some_iff.mp ht
      rw [hat.expect_eq hclose, State.run, State.next, if_pos hclose]
      rw [List.length_cons]
      exact .primary hat.succ (by omega) rfl
    · rw [hat.expect_eq_error (by simpa using hclose)]
      refine .refused ?_
      cases rest with
      | nil => rfl
      | cons t rest =>
        rw [State.run, State.next, if_neg fun h => hclose ⟨t, rfl, h⟩]
        rfl
  | cons parameter remaining =>
    rw [readArguments_first]
    exact (agrees_readArguments hargument hat hle rfl).mono (Nat.le_succ _)

/-- What a name stands for is read as by the states. -/
theorem agrees_readName {argument : Reader}
    (hargument : ∀ m < n, Follows scope source m .expression argument) {t : Token}
    {rest : List Token} {p : Nat} (hkind : t.kind = .identifier) (hat : At source (t :: rest) p)
    (hlt : rest.length < n) :
  Agrees scope source (rest.length + 1) .primary stack
    ((State.operand stack).run scope (t :: rest))
    (readName scope source (lineTokens source) argument t p)
  := by
  rw [State.run, State.next, readOperand, hkind]
  simp only
  by_cases hname : t.word = "true" ∨ t.word = "false"
  · rw [readName_of_boolean hat hname]
    refine .primary hat.succ (Nat.lt_succ_self _) ?_
    obtain hword | hword := hname
    · simp [hword, Except.bind]
    · simp [hword, Except.bind]
  obtain ⟨htrue, hfalse⟩ := not_or.mp hname
  rw [if_neg htrue, if_neg hfalse]
  cases hkeyword : keywords.contains t.word with
  | true =>
    rw [readName_of_keyword hname hat hkeyword]
    exact .refused rfl
  | false =>
    change Agrees _ _ _ _ _ ((State.name stack t).run scope rest) _
    by_cases hopen : ∃ u ∈ rest.head?, u.isSymbol .openParen = true
    · obtain ⟨opening, hopening, hopen⟩ := hopen
      obtain ⟨rest, rfl⟩ := List.head?_eq_some_iff.mp hopening
      rw [readName_of_openParen hname hkeyword hat hopen]
      cases hfunction : scope.catalog.get? t.word with
      | none =>
        refine .refused ?_
        rw [State.run, State.next, if_pos hopen, openCall, hfunction]
        rfl
      | some signature =>
        rw [List.length_cons] at hlt
        have hle : rest.length + 1 ≤ rest.length + 1 + 1 := Nat.le_succ _
        exact (agrees_readArguments_first (hargument rest.length (by omega)) hfunction hopen
          hat.succ.succ le_rfl).mono hle
    · have hne : ∀ u ∈ rest.head?, u.isSymbol .openParen = false := by simpa using hopen
      rw [readName_of_ne hname hkeyword hat hne, run_name_of_not_openParen hne]
      cases resolveName scope t rest.head? with
      | error failure => exact .refused rfl
      | ok value =>
        exact .primary hat.succ (Nat.lt_succ_self _) rfl

/-! ### Levels -/

/-- Every integer of the line can be converted. -/
def WithinLimit (source : List Char) : Prop :=
  ∀ t ∈ tokens source, t.kind = .integer → t.text.length ≤ digitLimit

theorem follows_readPrimary (hlimit : WithinLimit source) {expression : Reader}
    (hexpression : ∀ m < n, Follows scope source m .expression expression) :
  Follows scope source n .primary (readPrimary scope source (lineTokens source) expression)
  := by
  intro stack rest p hat hle _ hminus
  cases rest with
  | nil =>
    rw [readPrimary_nil hat]
    exact .refused rfl
  | cons t rest =>
    have hread {value : Fragment} (h : readOperand stack t = .ok (.operator stack value)) :
        Agrees scope source (rest.length + 1) .primary stack
          ((State.operand stack).run scope (t :: rest)) (.ok (value, p + 1)) := by
      refine .primary hat.succ (Nat.lt_succ_self _) ?_
      rw [State.run, State.next, h]
      rfl
    have hrefused {failure : Failure} (h : readOperand stack t = .error failure) :
        Agrees scope source (rest.length + 1) .primary stack
          ((State.operand stack).run scope (t :: rest)) (.error (.ofFailure source failure)) := by
      refine .refused ?_
      rw [State.run, State.next, h]
      rfl
    rw [List.length_cons] at hle ⊢
    rw [readPrimary_cons hat]
    cases hkind : t.kind with
    | integer =>
      have hmem : t ∈ tokens source := mem_tokens_iff.mpr (.inl (List.mem_filter.mp hat.mem).1)
      simp only
      rw [toInteger_eq hat.mem hkind (hlimit t hmem hkind)]
      exact hread (by rw [readOperand, hkind])
    | float =>
      simp only
      rw [toFloat_eq hat.mem hkind]
      exact hread (by rw [readOperand, hkind]; rfl)
    | string =>
      simp only
      cases hquote : t.flags.unterminated with
      | true => exact hrefused (by simp only [readOperand, hkind, hquote, if_true])
      | false => exact hread (by simp [readOperand, hkind, hquote])
    | identifier => exact agrees_readName hexpression hkind hat hle
    | symbol s =>
      cases s with
      | minus => exact absurd hkind (hminus rfl t rfl)
      | openParen =>
        have hinner := (hexpression rest.length hle).agrees (by decide) (.group :: stack) hat.succ
          le_rfl fun _ => trivial
        have hnext : (State.operand stack).run scope (t :: rest)
            = (State.operand (.group :: stack)).run scope rest := by
          rw [State.run, State.next, readOperand, hkind]
          rfl
        rw [hnext]
        refine Agrees.expect (awaits_group scope stack) hinner ?_
          (k := fun value p => .ok (value, p))
        intro value p' rest' hat' hlength hrun
        exact .primary hat' (by omega) hrun
      | _ => exact hrefused (by rw [readOperand, hkind])
    | _ => exact hrefused (by rw [readOperand, hkind])

/-- The procedures of all levels read as the states, if they may go deep enough: each token is
worth more levels than there are. -/
theorem follows_readLevel (hlimit : WithinLimit source) {depth n : Nat} {level : Level}
    (hdepth : 8 * n + 8 ≤ depth + level.rank) :
  Follows scope source n level (readLevel scope source (lineTokens source) depth level)
  := by
  induction depth generalizing n level with
  | zero =>
    have hrank : level.rank ≤ 7 := by cases level <;> decide
    omega
  | succ depth ih =>
    -- the next tighter level is one deeper, and behind a token all levels are at hand again
    have htighter {inner : Level} (h : inner.rank = level.rank + 1) :
        Follows scope source n inner (readLevel scope source (lineTokens source) depth inner) :=
      ih (by omega)
    have hbehind (inner : Level) : ∀ m < n,
        Follows scope source m inner (readLevel scope source (lineTokens source) depth inner) := by
      intro m hm
      have hinner : 1 ≤ inner.rank := by cases inner <;> decide
      have hlevel : level.rank ≤ 7 := by cases level <;> decide
      exact ih (by omega)
    have hchain {inner : Level} (hcomparison : level ≠ .comparison) (hprimary : inner ≠ .primary)
        (htight : inner.rank = level.rank + 1) :
        Follows scope source n level (readChain scope (lineTokens source) level
          (readLevel scope source (lineTokens source) depth inner) depth) := by
      have hrank : inner.rank ≤ 7 := by cases inner <;> decide
      exact follows_readChain hcomparison hprimary htight (htighter htight) (by omega)
    cases level with
    | expression => exact hchain (by decide) (by decide) rfl
    | conjunction => exact hchain (by decide) (by decide) rfl
    | comparison => exact follows_readComparison (htighter rfl)
    | sum => exact hchain (by decide) (by decide) rfl
    | product => exact hchain (by decide) (by decide) rfl
    | unary => exact follows_readUnary (hbehind .unary) (htighter rfl)
    | primary => exact follows_readPrimary hlimit (hbehind .expression)

/-! ### Lines -/

/-- The end of a line is read as by the states. -/
theorem readEnd_eq {p : Nat} {value : Fragment} {rest : List Token} (hat : At source rest p)
    (hlooser : LooserNext 1 rest) :
  readEnd source (lineTokens source) value p
    = ((State.operator [] value).run scope rest).mapError (.ofFailure source)
  := by
  cases rest with
  | nil => exact readEnd_nil hat value
  | cons t rest =>
    rw [readEnd_cons hat, State.run, State.next, afterOperand, hlooser.ofToken?_eq_none]
    rfl

/-- An expression and the end of the line are read as by the states. -/
theorem Agrees.readEnd {x : Except Stop (Fragment × Nat)}
    (h : Agrees scope source n .expression [] outcome x) :
  (x >>= fun (value, p) => readEnd source (lineTokens source) value p)
    = outcome.mapError (.ofFailure source)
  := by
  cases h with
  | refused hrefused =>
    rw [hrefused]
    rfl
  | read hat _ hlooser hrun =>
    rw [hrun]
    exact readEnd_eq hat hlooser
  | chained hat _ _ hnext hrefused =>
    obtain ⟨t, ht, -⟩ := hnext
    obtain ⟨rest, rfl⟩ := List.head?_eq_some_iff.mp ht
    rw [hrefused]
    exact readEnd_cons hat _

/-- A trigger and the end of the line are read as by the states. -/
theorem readTrigger_readEnd {sign : Token} {rest : List Token} {p : Nat}
    (hat : At source (sign :: rest) p) (hsign : sign.isSymbol .at = true) :
  (readTrigger scope source (lineTokens source) p >>= fun (value, p) =>
      readEnd source (lineTokens source) value p)
    = (State.triggerSign.run scope rest).mapError (.ofFailure source)
  := by
  rw [readTrigger_eq hat hsign]
  cases rest with
  | nil => rfl
  | cons name rest =>
    rw [State.run, State.next, List.head?_cons]
    simp only
    by_cases hkind : name.kind = .identifier
    · rw [if_pos hkind, if_pos hkind]
      by_cases hknown : scope.knowsTrigger name.word = true
      · rw [if_pos hknown, if_pos hknown]
        cases rest with
        | nil => exact readEnd_nil hat.succ.succ _
        | cons t rest => exact readEnd_cons hat.succ.succ _
      · rw [if_neg hknown, if_neg hknown]
        rfl
    · rw [if_neg hkind, if_neg hkind]
      rfl

/-- Reading a line with the cursor comes to the same as parsing it. -/
theorem readLine_eq (hlimit : WithinLimit source) {depth : Nat}
    (hdepth : 8 * (tokens source).length ≤ depth) :
  readLine scope source depth = (parseLine scope source).mapError (.ofFailure source)
  := by
  have hat := at_zero source
  have hlength : (significantTokens source).length + 1 ≤ (tokens source).length := by
    rw [tokens, List.length_append]
    exact Nat.succ_le_succ (List.length_filter_le _ _)
  rw [readLine, scan_eq, parseLine]
  simp only [bind, Except.bind, hat.current_eq]
  by_cases hsign : ∃ t ∈ (significantTokens source).head?, t.isSymbol .at = true
  · obtain ⟨sign, ht, hsign⟩ := hsign
    obtain ⟨rest, hrest⟩ := List.head?_eq_some_iff.mp ht
    have hkind : sign.kind = .symbol .at := by simpa [Token.isSymbol] using hsign
    rw [hrest] at hat ⊢
    rw [Grammar.run_start_of_at hkind, List.head?_cons, Option.getD_some, if_pos hsign]
    exact readTrigger_readEnd hat hsign
  · have hne : ∀ t ∈ (significantTokens source).head?, t.kind ≠ .symbol .at := by
      simpa [Token.isSymbol] using hsign
    have hfirst : ((significantTokens source).head?.getD (endToken source)).isSymbol .at = false :=
      isSymbol_head?_getD (by simpa using hsign)
    have hfollows : Follows scope source (significantTokens source).length .expression
        (readLevel scope source (lineTokens source) depth .expression) :=
      follows_readLevel hlimit (by rw [Level.rank]; omega)
    rw [Grammar.run_start_of_not_at hne, hfirst]
    exact (hfollows.agrees (by decide) [] hat le_rfl fun _ => trivial).readEnd

/-- Reading a line comes to an end, and without a fault: if every integer can be converted, and
the procedures may call each other eight times for each token, the line is read as it is parsed,
with a fragment, an unexpected token or an undefined name. -/
theorem readLine_announced (hlimit : WithinLimit source) {depth : Nat}
    (hdepth : 8 * (tokens source).length ≤ depth) :
  readLine scope source depth = (parseLine scope source).mapError (.ofFailure source)
    ∧ ((∃ f, readLine scope source depth = .ok f)
      ∨ (∃ e, readLine scope source depth = .error (.unexpected e))
      ∨ ∃ name, readLine scope source depth = .error (.undefined name))
  := by
  have hread : readLine scope source depth = _ := readLine_eq hlimit hdepth
  refine ⟨hread, ?_⟩
  rw [hread]
  cases parseLine scope source with
  | ok f => exact .inl ⟨f, rfl⟩
  | error failure =>
    cases failure with
    | unexpected token expected => exact .inr (.inl ⟨_, rfl⟩)
    | undefined name => exact .inr (.inr ⟨_, rfl⟩)

end

/-- A product of a negative number and a difference. -/
def negativeProduct : List Char :=
  "-2 * (3 - 1.5)".toList

/-- The product is read, level by level, without a fault. -/
theorem readLine_announced_negativeProduct :
  WithinLimit negativeProduct ∧ 8 * (tokens negativeProduct).length ≤ 128
    ∧ readLine {} negativeProduct 128
      = .ok (Operator.multiply.calculation (.integer (-2))
          (Operator.subtract.calculation (.integer 3) (.float (readPositional ['1'] ['5']))))
  := by
  have hlimit : WithinLimit negativeProduct := by
    have hall : (tokens negativeProduct).all (fun t => t.text.length ≤ 3) = true := by
      decide +kernel
    intro t ht _
    have hle : t.text.length ≤ 3 := of_decide_eq_true (List.all_eq_true.mp hall t ht)
    exact hle.trans (by decide)
  have hdepth : 8 * (tokens negativeProduct).length ≤ 128 := by decide +kernel
  have hparse : parseLine {} negativeProduct = .ok (Operator.multiply.calculation (.integer (-2))
      (Operator.subtract.calculation (.integer 3) (.float (readPositional ['1'] ['5'])))) := by
    decide +kernel
  have hread : readLine {} negativeProduct 128 = (parseLine {} negativeProduct).mapError _ :=
    (readLine_announced hlimit hdepth).1
  rw [hparse] at hread
  exact ⟨hlimit, hdepth, hread⟩

end Cursor

end Parse

end TriggerLang
