import TriggerLang.Proofs.Grammar.Completeness
import TriggerLang.Proofs.Parse.Reach

/-!
# What is expected can stand there

Whatever a refused line expects in place of what was found can be read there, and the line
can be completed behind it, with one exception: after a comparison another comparison is
expected as well, which cannot follow.
-/

namespace TriggerLang.Grammar

open Parse

/-- What the operators that compare are written as. -/
def comparisonSpellings : List String :=
  ["==", "!=", "<=", ">=", "<", ">"]

variable {scope : Scope}

/-- The terminals end in a comparison: an operator that compares, with a sum behind it. -/
def EndsInComparison (scope : Scope) (ts : List Terminal) : Prop :=
  ∃ before t op f after, ts = before ++ t :: after ∧ t.operator? = some op
    ∧ op.isComparison = true ∧ Derives scope (.value .sum f) after

/-- The literal can be read behind the terminals, and the line completed behind it. -/
def Fits (scope : Scope) (ts : List Terminal) (s : String) : Prop :=
  Text.Unbroken s.toList ∧ ∃ us, Means [] s.toList us ∧ Completable scope (ts ++ us)

/-- The terminals can be completed, and what is expected behind them can stand there. -/
structure Offers (scope : Scope) (ts : List Terminal) (expected : List Expectation) : Prop where
  completable : Completable scope ts
  fits : ∀ s, .literal s ∈ expected →
    (s ∈ comparisonSpellings → ¬ EndsInComparison scope ts) → Fits scope ts s
  ends : .endOfLine ∈ expected → ∃ f, DerivesLine scope f ts

/-! ### Operators -/

theorem closingLevel_of_isComparison {op : Operator} (h : op.isComparison = true) :
  closingLevel op = Level.sum.rank
  := by
  rw [closingLevel, if_pos h, beq_iff_eq.mp h]
  rfl

/-- A comparison that is left on the stack when sums are closed is one that the terminals end
in. -/
theorem endsInComparison_of_settle {stack : List Frame} {f : Fragment} {ts us : List Terminal}
    (hstack : Opened scope stack ts) (hf : Derives scope (.value .primary f) us)
    (h : endsInComparison (settle scope.catalog Level.sum.rank stack f).1 = true) :
  EndsInComparison scope (ts ++ us)
  := by
  obtain ⟨level, ts', us', hstack', hf', hle, -, happend⟩ :=
    settle_sound Level.sum.rank hstack hf (accepts_of_six_le .primary (by decide) stack)
      (by decide) (by decide)
  generalize (settle scope.catalog Level.sum.rank stack f).1 = settled at hstack' h
  rw [← happend]
  cases hstack' with
  | @binary op left stack ts us t _ _ _ hop =>
    exact ⟨ts ++ us, t, op, _, us', by simp, hop, h, .loosen hle hf'⟩
  | _ => cases h

/-- An operator can follow an operand, unless it is a comparison after a comparison. -/
theorem completable_of_operator {stack : List Frame} {f : Fragment} {ts us : List Terminal}
    {t : Terminal} {op : Operator} (hstack : Opened scope stack ts)
    (hf : Derives scope (.value .primary f) us) (hop : t.operator? = some op)
    (hchain : op.isComparison = true → ¬ EndsInComparison scope (ts ++ us)) :
  Completable scope (ts ++ us ++ [t])
  := by
  apply completable_of_opened (explains_operator hstack hf hop ?_)
  intro h
  obtain ⟨hcomparison, hends⟩ := Bool.and_eq_true_iff.mp h
  rw [closingLevel_of_isComparison hcomparison] at hends
  exact hchain hcomparison (endsInComparison_of_settle hstack hf hends)

theorem unbroken_spelling (symbol : Symbol) :
  Text.Unbroken symbol.spelling
  := by
  cases symbol <;> exact Text.unbroken_of_all rfl

/-- The literals that are expected after a whole expression are operators. -/
theorem exists_operator_of_continuation {s : String} (h : .literal s ∈ continuationExpected) :
  Text.Unbroken s.toList ∧ ∃ t op, Means [] s.toList [t] ∧ t.operator? = some op
    ∧ (op.isComparison = true ↔ s ∈ comparisonSpellings)
  := by
  have hsymbol : ∀ {symbol : Symbol} {op : Operator}, Operator.ofSymbol? symbol = some op →
      (op.isComparison = true ↔ String.ofList symbol.spelling ∈ comparisonSpellings) →
      Text.Unbroken symbol.spelling ∧ ∃ t op, Means [] symbol.spelling [t]
        ∧ t.operator? = some op
        ∧ (op.isComparison = true ↔ String.ofList symbol.spelling ∈ comparisonSpellings) :=
    fun hop hcomparison => ⟨unbroken_spelling _, _, _, .symbol _, hop, hcomparison⟩
  simp only [continuationExpected, List.mem_cons, Expectation.literal.injEq, reduceCtorEq,
    List.not_mem_nil, or_false] at h
  rcases h with rfl | rfl | rfl | rfl | rfl | rfl | rfl | rfl | rfl | rfl | rfl | rfl | rfl
  · exact @hsymbol .equalEqual _ rfl (by decide)
  · exact @hsymbol .notEqual _ rfl (by decide)
  · exact @hsymbol .lessEqual _ rfl (by decide)
  · exact @hsymbol .greaterEqual _ rfl (by decide)
  · exact @hsymbol .less _ rfl (by decide)
  · exact @hsymbol .greater _ rfl (by decide)
  · exact @hsymbol .plus _ rfl (by decide)
  · exact @hsymbol .minus _ rfl (by decide)
  · exact @hsymbol .star _ rfl (by decide)
  · exact @hsymbol .slash _ rfl (by decide)
  · exact @hsymbol .percent _ rfl (by decide)
  · have hname : Text.IsName "and".toList :=
      ⟨'a', ['n', 'd'], rfl, rfl, List.all_eq_true.mp (by decide)⟩
    exact ⟨Text.unbroken_of_all rfl, _, .and, .word hname rfl, by decide, by decide⟩
  · have hname : Text.IsName "or".toList :=
      ⟨'o', ['r'], rfl, rfl, List.all_eq_true.mp (by decide)⟩
    exact ⟨Text.unbroken_of_all rfl, _, .or, .word hname rfl, by decide, by decide⟩

/-! ### States -/

/-- What can be completed behind a text can be completed before it. -/
theorem Completable.of_append {ts us : List Terminal} {text : List Char} (htext : Means [] text us)
    (h : Completable scope (ts ++ us)) :
  Completable scope ts
  := by
  obtain ⟨out, f, hline⟩ := h
  refine ⟨text ++ ' ' :: out, f, ?_⟩
  rwa [htext _ (.space out), meaning_space, ← List.append_assoc]

theorem Fits.of_symbol {ts : List Terminal} (symbol : Symbol)
    (h : Completable scope (ts ++ [.ofSymbol symbol])) :
  Fits scope ts (String.ofList symbol.spelling)
  := by
  rw [Fits, String.toList_ofList]
  exact ⟨unbroken_spelling symbol, _, .symbol symbol, h⟩

/-- An operand can be started. -/
theorem offers_operand {stack : List Frame} {ts : List Terminal} (h : Opened scope stack ts) :
  Offers scope ts operandExpected
  := by
  refine ⟨completable_of_opened h, ?_, ?_⟩
  · intro s hs _
    obtain rfl | rfl : s = "(" ∨ s = "-" := by simpa [operandExpected] using hs
    · exact .of_symbol .openParen (completable_of_opened (.group h rfl))
    · exact .of_symbol .minus (completable_of_opened (.negative h rfl))
  · intro hend
    simp [operandExpected] at hend

/-- A bracket can be expected wherever one can stand. -/
theorem offers_bracket {ts : List Terminal} {s : String} (symbol : Symbol)
    (hs : s = String.ofList symbol.spelling) (h : Completable scope (ts ++ [.ofSymbol symbol])) :
  Offers scope ts [.literal s]
  := by
  refine ⟨h.of_append (.symbol symbol), ?_, ?_⟩
  · intro s' hs' _
    cases List.mem_singleton.mp hs'
    exact hs ▸ .of_symbol symbol h
  · intro hend
    cases List.mem_singleton.mp hend

/-- The arguments of a function with parameters can be opened. -/
theorem offers_openCall {stack : List Frame} {signature : Signature} {ts : List Terminal}
    {name : Terminal} (hstack : Opened scope stack ts) (hname : name.kind = .identifier)
    (hword : ¬ isKeyword name.word) (hfunction : scope.catalog.get? name.word = some signature)
    (hparameters : signature.parameters ≠ []) :
  Offers scope (ts ++ [name]) [.literal "("]
  := by
  obtain ⟨parameter, remaining, hfirst⟩ := List.exists_cons_of_ne_nil hparameters
  have hopened : Opened scope
      (.argument (fieldsOf signature.key [] []) parameter remaining :: stack)
      (ts ++ [name, .ofSymbol .openParen]) :=
    .argument hstack hname hword hfunction hfirst rfl rfl .none
  apply offers_bracket .openParen rfl
  rw [List.append_assoc]
  exact completable_of_opened hopened

/-- The brackets of a function without parameters can be closed. -/
theorem offers_emptyCall {stack : List Frame} {signature : Signature} {ts : List Terminal}
    {name opening : Terminal} (hstack : Opened scope stack ts) (hname : name.kind = .identifier)
    (hword : ¬ isKeyword name.word) (hfunction : scope.catalog.get? name.word = some signature)
    (harity : signature.parameters = []) (hopen : opening.kind = .symbol .openParen) :
  Offers scope (ts ++ [name, opening]) [.literal ")"]
  := by
  have hcall : Derives scope (.value .primary (callOf signature []))
      [name, opening, .ofSymbol .closeParen] :=
    .emptyCall hname hword hfunction harity hopen rfl
  apply offers_bracket .closeParen rfl
  rw [List.append_assoc]
  exact completable_of_operand hstack hcall

/-- Closing frames without brackets leaves what is expected. -/
theorem expectedAfter_settle (catalog : Catalog) (level : Nat) (stack : List Frame) (f : Fragment) :
  expectedAfter (settle catalog level stack f).1 = expectedAfter stack
  := by
  fun_induction settle catalog level stack f with
  | case1 stack f ih => exact ih
  | case2 op left stack f hle ih => exact ih
  | case3 => rfl
  | case4 => rfl

/-- Behind an operand an operator can follow, or the innermost bracket can be closed, or the
next argument can be begun. -/
theorem offers_expectedAfter {stack : List Frame} {f : Fragment} {ts us : List Terminal}
    (hstack : Opened scope stack ts) (hf : Derives scope (.value .primary f) us) :
  Offers scope (ts ++ us) (expectedAfter stack)
  := by
  obtain ⟨level, ts', us', hstack', hf', -, hadmits, happend⟩ :=
    settle_sound 0 hstack hf (accepts_of_six_le .primary (by decide) stack) (by decide) (by decide)
  have hexpression : Derives scope (.value .expression _) us' :=
    .loosen (by cases level <;> decide) hf'
  rw [← expectedAfter_settle scope.catalog 0 stack f]
  generalize (settle scope.catalog 0 stack f).1 = settled at hstack' hadmits
  generalize (settle scope.catalog 0 stack f).2 = value at hexpression
  -- the operand that a closing bracket makes can be completed
  have hclosed : ∀ {rest : List Frame} {g : Fragment} {vs : List Terminal},
      Explains scope (.operator rest g) vs → Completable scope vs := by
    rintro rest g vs ⟨ts, us, hrest, hg, rfl⟩
    exact completable_of_operand hrest hg
  match settled, hadmits with
  | [], _ =>
    cases hstack'
    refine ⟨completable_of_operand hstack hf, ?_, ?_⟩
    · intro s hs hchain
      obtain ⟨hunbroken, t, op, hmeans, hop, hcomparison⟩ := exists_operator_of_continuation hs
      exact ⟨hunbroken, [t], hmeans, completable_of_operator hstack hf hop
        fun h => hchain (hcomparison.mp h)⟩
    · intro _
      rw [← happend]
      exact ⟨value, .expression hexpression⟩
  | .binary _ _ :: _, hadmits => exact absurd hadmits (Nat.not_lt_zero _)
  | .negative :: _, hadmits => exact hadmits.elim
  | .group :: rest, _ =>
    rw [← happend]
    exact offers_bracket .closeParen rfl (hclosed (hstack'.close_group hexpression rfl))
  | .argument fields parameter [] :: rest, _ =>
    rw [← happend]
    exact offers_bracket .closeParen rfl (hclosed (hstack'.close_call hexpression rfl))
  | .argument fields parameter (next :: remaining) :: rest, _ =>
    rw [← happend]
    exact offers_bracket .comma rfl
      (completable_of_opened (hstack'.next_argument hexpression rfl))

/-! ### Where a line is refused -/

/-- Tokens are refused at one of them or at their end, where they can still be completed by what
is expected.  At a string that is not closed they are refused at their end as well, and can be
completed once it is closed. -/
inductive Located (scope : Scope) (tokens : List Token) : Option Token → List Expectation → Prop
  | token {before after : List Token} {token : Token} {expected : List Expectation}
      (h : tokens = before ++ token :: after)
      (hoffers : Offers scope (before.map Token.terminal) expected) :
      Located scope tokens (some token) expected
  | atEnd {expected : List Expectation} (hoffers : Offers scope (tokens.map Token.terminal) expected)
      (hplain : ∀ s ∈ comparisonSpellings, .literal s ∉ expected) :
      Located scope tokens none expected
  | string {before after : List Token} {token : Token} (h : tokens = before ++ token :: after)
      (hkind : token.kind = .string) (hunterminated : token.flags.unterminated = true)
      (hcompletable : ∀ closed : Terminal, closed.kind = .string → closed.unterminated = false →
        Completable scope (before.map Token.terminal ++ [closed])) :
      Located scope tokens none [.literal "\""]

variable {read rest : List Token} {token : Token} {blamed : Option Token}
  {expected : List Expectation}

/-- What is left when frames are closed admits a frame of the level. -/
theorem admits_settle (catalog : Catalog) (level : Nat) (stack : List Frame) (f : Fragment) :
  Admits level (settle catalog level stack f).1
  := by
  fun_induction settle catalog level stack f with
  | case1 stack f ih => exact ih
  | case2 op left stack f hle ih => exact ih
  | case3 op left stack f hle => exact Nat.lt_of_not_le hle
  | case4 stack f hnegative hbinary =>
    cases stack with
    | nil => trivial
    | cons frame stack =>
      cases frame with
      | binary op left => exact (hbinary _ _ _ rfl).elim
      | negative => exact (hnegative _ rfl).elim
      | group => trivial
      | argument fields parameter remaining => trivial

/-- At the end of a line only a bracket or a comma is expected after an operand. -/
theorem notMem_expectedAfter {catalog : Catalog} {stack : List Frame} {f : Fragment}
    {failure : Failure} (h : endAfterOperand catalog stack f = .error failure) :
  ∀ s ∈ comparisonSpellings, .literal s ∉ expectedAfter stack
  := by
  have hopen : (settle catalog 0 stack f).1 ≠ [] := by
    rw [endAfterOperand] at h
    split at h
    · cases h
    · rename_i hne
      exact fun hnil => hne _ (Prod.ext hnil rfl)
  have hadmits := admits_settle catalog 0 stack f
  rw [← expectedAfter_settle catalog 0 stack f]
  generalize (settle catalog 0 stack f).1 = settled at hopen hadmits
  cases settled with
  | nil => exact absurd rfl hopen
  | cons frame settled =>
    cases frame with
    | binary op left => exact absurd hadmits (Nat.not_lt_zero _)
    | negative => exact hadmits.elim
    | group => simp [comparisonSpellings, expectedAfter]
    | argument fields parameter remaining =>
      cases remaining <;> simp [comparisonSpellings, expectedAfter]

/-- A name that is refused for what follows it is that of a function with parameters. -/
theorem of_resolveName_eq_unexpected {head : Token} {following : Option Token}
    (h : resolveName scope head following = .error (.unexpected blamed expected)) :
  blamed = following ∧ expected = [.literal "("]
    ∧ ∃ signature, scope.catalog.get? head.word = some signature ∧ signature.parameters ≠ []
  := by
  rw [resolveName] at h
  split at h
  · split at h <;> cases h
    exact ⟨rfl, rfl, _, ‹_›, by simp_all⟩
  · split at h <;> cases h

/-! ### Refused tokens -/

theorem Within.offers_of_name {stack : List Frame} {head : Token} {following : Option Token}
    (h : Within scope (.name stack head) read)
    (hname : resolveName scope head following = .error (.unexpected blamed expected)) :
  Offers scope (read.map Token.terminal) expected
  := by
  obtain ⟨before, rfl, hstack, hkind, hword⟩ := h.exists_opened
  obtain ⟨-, rfl, signature, hfunction, hparameters⟩ := of_resolveName_eq_unexpected hname
  rw [List.map_append]
  exact offers_openCall hstack hkind hword hfunction hparameters

theorem Within.offers_of_resolved {stack : List Frame} {head : Token} {following : Option Token}
    {f : Fragment} (h : Within scope (.name stack head) read)
    (hname : resolveName scope head following = .ok f) :
  Offers scope (read.map Token.terminal) (expectedAfter stack)
  := by
  obtain ⟨before, rfl, hstack, hkind, hword⟩ := h.exists_opened
  rw [List.map_append]
  exact offers_expectedAfter hstack (derives_of_resolveName hkind hword hname)

theorem Within.offers_of_operator {stack : List Frame} {f : Fragment}
    (h : Within scope (.operator stack f) read) :
  Offers scope (read.map Token.terminal) (expectedAfter stack)
  := by
  obtain ⟨ts, us, hstack, hf, hread⟩ := h.explains
  rw [hread]
  exact offers_expectedAfter hstack hf

theorem Within.offers_of_emptyCall {stack : List Frame} {signature : Signature}
    (h : Within scope (.emptyCall stack signature) read) :
  Offers scope (read.map Token.terminal) [.literal ")"]
  := by
  obtain ⟨us, name, opening, hstack, hkind, hword, hfunction, harity, hopen, hread⟩ := h.explains
  rw [hread]
  exact offers_emptyCall hstack hkind hword hfunction harity hopen

/-- A refused operand is refused at its place. -/
theorem located_of_readOperand {stack : List Frame} (hstate : Within scope (.operand stack) read)
    (h : readOperand stack token = .error (.unexpected blamed expected)) :
  Located scope (read ++ token :: rest) blamed expected
  := by
  have hrefused : Located scope (read ++ token :: rest) (some token) operandExpected :=
    .token rfl (offers_operand hstate.explains)
  rw [readOperand] at h
  split at h
  case h_3 hkind =>
    split at h <;> cases h
    apply Located.string rfl hkind ‹_›
    intro closed hclosed hterminated
    exact completable_of_operand hstate.explains (.string hclosed hterminated)
  case h_6 =>
    split at h
    · cases h
    split at h
    · cases h
    split at h <;> cases h
    exact hrefused
  case h_7 =>
    cases h
    exact hrefused
  all_goals cases h

/-- A refused token is refused at its place, or for the name before it. -/
theorem located_of_next {state : State} (hstate : Within scope state read)
    (h : state.next scope token = .error (.unexpected blamed expected)) :
  Located scope (read ++ token :: rest) blamed expected
  := by
  cases state with
  | start => exact hstate.endsIn.elim
  | triggerSign => exact hstate.endsIn.elim
  | trigger word => exact hstate.endsIn.elim
  | operand stack => exact located_of_readOperand hstate h
  | name stack head =>
    rw [State.next] at h
    split at h
    · -- no function has this name, so the name is refused and not the bracket
      rw [openCall] at h
      split at h
      · cases h
        obtain ⟨before, rfl, hstack, -⟩ := hstate.exists_opened
        rw [List.append_assoc]
        exact .token rfl ⟨completable_of_opened hstack, by simp, by simp⟩
      · split at h <;> cases h
    · cases hname : resolveName scope head (some token) with
      | ok f =>
        rw [hname] at h
        cases eq_of_afterOperand_eq_error h
        exact .token rfl (hstate.offers_of_resolved hname)
      | error failure =>
        rw [hname] at h
        cases h
        have hoffers := hstate.offers_of_name hname
        obtain ⟨rfl, -⟩ := of_resolveName_eq_unexpected hname
        exact .token rfl hoffers
  | emptyCall stack signature =>
    rw [State.next] at h
    split at h <;> cases h
    exact .token rfl hstate.offers_of_emptyCall
  | operator stack f =>
    cases eq_of_afterOperand_eq_error h
    exact .token rfl hstate.offers_of_operator

/-- What is refused at its end lacks what is expected. -/
theorem located_of_finish {state : State} (hstate : Within scope state read)
    (h : state.finish scope = .error (.unexpected blamed expected)) :
  Located scope read blamed expected
  := by
  have hplain : ∀ {stack : List Frame} {f : Fragment},
      endAfterOperand scope.catalog stack f = .error (.unexpected blamed expected) →
      Offers scope (read.map Token.terminal) (expectedAfter stack) →
      Located scope read blamed expected := by
    intro stack f h hoffers
    have hnot := notMem_expectedAfter h
    cases eq_of_endAfterOperand_eq_error h
    exact .atEnd hoffers hnot
  cases state with
  | start => exact hstate.endsIn.elim
  | triggerSign => exact hstate.endsIn.elim
  | trigger word => exact hstate.endsIn.elim
  | operand stack =>
    cases h
    exact .atEnd (offers_operand hstate.explains) (by decide)
  | name stack head =>
    rw [State.finish] at h
    cases hname : resolveName scope head none with
    | ok f =>
      rw [hname] at h
      exact hplain h (hstate.offers_of_resolved hname)
    | error failure =>
      rw [hname] at h
      cases h
      have hoffers := hstate.offers_of_name hname
      obtain ⟨rfl, rfl, -⟩ := of_resolveName_eq_unexpected hname
      exact .atEnd hoffers (by decide)
  | emptyCall stack signature =>
    cases h
    exact .atEnd hstate.offers_of_emptyCall (by decide)
  | operator stack f => exact hplain h hstate.offers_of_operator

/-- A line that is no trigger is refused at the first place where it can no longer be completed,
and what is expected can stand there. -/
theorem located_of_run {tokens : List Token}
    (h : (State.operand []).run scope tokens = .error (.unexpected blamed expected)) :
  Located scope tokens blamed expected
  := by
  cases refused_of_run h with
  | token htokens hread hrefused =>
    rw [htokens]
    exact located_of_next (within_of_read hread) hrefused
  | atEnd hread hrefused => exact located_of_finish (within_of_read hread) hrefused

/-- Tokens are refused at one of them or at their end, and what comes before can be completed.
At a string that is not closed they are refused at their end as well, and can be completed once
it is closed. -/
inductive Stuck (scope : Scope) (tokens : List Token) : Option Token → Prop
  | token {before after : List Token} {token : Token} (h : tokens = before ++ token :: after)
      (hcompletable : Completable scope (before.map Token.terminal)) :
      Stuck scope tokens (some token)
  | atEnd (hcompletable : Completable scope (tokens.map Token.terminal)) :
      Stuck scope tokens none
  | string {before after : List Token} {token : Token} (h : tokens = before ++ token :: after)
      (hkind : token.kind = .string) (hunterminated : token.flags.unterminated = true)
      (hcompletable : ∀ closed : Terminal, closed.kind = .string → closed.unterminated = false →
        Completable scope (before.map Token.terminal ++ [closed])) :
      Stuck scope tokens none

/-- A text that is refused as an expression is refused at the first place where it can no longer
be completed. -/
theorem stuck_of_parseLine {source : List Char}
    (hsign : ∀ token ∈ (significantTokens source).head?, token.kind ≠ .symbol .at)
    (h : parseLine scope source = .error (.unexpected blamed expected)) :
  Stuck scope (significantTokens source) blamed
  := by
  rw [parseLine, run_start_of_not_at hsign] at h
  cases located_of_run h with
  | token htokens hoffers => exact .token htokens hoffers.completable
  | atEnd hoffers => exact .atEnd hoffers.completable
  | string htokens hkind hunterminated hclosed =>
    exact .string htokens hkind hunterminated hclosed

end TriggerLang.Grammar
