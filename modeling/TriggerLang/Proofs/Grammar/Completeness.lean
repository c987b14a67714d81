import Mathlib.Data.List.Basic
import TriggerLang.Proofs.Grammar.Soundness

/-!
# What is derived is parsed

Wherever a phrase may stand, reading its terminals leads to a state that goes on as if the
fragment of the phrase had been read in one piece: closing frames down to the level of the
phrase closes those that the phrase has left open first (`Standing`).  Together with
soundness, a text is parsed as exactly the fragment that its terminals derive.
-/

namespace TriggerLang.Grammar

open Parse

variable {scope : Scope}

/-! ### Leading from state to state -/

/-- From `state`, tokens with these terminals lead to a state that satisfies `goal`, whatever
follows them. -/
def Leads (scope : Scope) (state : State) (ts : List Terminal) (goal : State → Prop) : Prop :=
  ∀ tokens, tokens.map Token.terminal = ts →
    ∃ state', goal state' ∧ ∀ rest, state.run scope (tokens ++ rest) = state'.run scope rest

theorem Leads.single {state : State} {t : Terminal} {goal : State → Prop}
    (h : ∀ token : Token, token.terminal = t →
      ∃ state', state.next scope token = .ok state' ∧ goal state') :
  Leads scope state [t] goal
  := by
  intro tokens htokens
  obtain ⟨token, rfl, htoken⟩ := List.map_eq_singleton_iff.mp htokens
  obtain ⟨state', hnext, hgoal⟩ := h token htoken
  use state', hgoal
  intro rest
  rw [List.singleton_append, State.run, hnext]
  rfl

theorem Leads.append {state : State} {ts us : List Terminal} {goal goal' : State → Prop}
    (h : Leads scope state ts goal)
    (h' : ∀ state', goal state' → Leads scope state' us goal') :
  Leads scope state (ts ++ us) goal'
  := by
  intro tokens htokens
  obtain ⟨first, second, rfl, hfirst, hsecond⟩ := List.map_eq_append_iff.mp htokens
  obtain ⟨state', hgoal, hrun⟩ := h first hfirst
  obtain ⟨state'', hgoal', hrun'⟩ := h' state' hgoal second hsecond
  use state'', hgoal'
  intro rest
  rw [List.append_assoc, hrun, hrun']

theorem Leads.cons {state : State} {t : Terminal} {us : List Terminal}
    {goal goal' : State → Prop} (h : Leads scope state [t] goal)
    (h' : ∀ state', goal state' → Leads scope state' us goal') :
  Leads scope state (t :: us) goal'
  := h.append h'

theorem Leads.mono {state : State} {ts : List Terminal} {goal goal' : State → Prop}
    (h : Leads scope state ts goal) (hgoal : ∀ state', goal state' → goal' state') :
  Leads scope state ts goal'
  := by
  intro tokens htokens
  obtain ⟨state', hstate', hrun⟩ := h tokens htokens
  use state', hgoal state' hstate'

/-! ### Operands that stand on a stack -/

/-- The state goes on like `value` on `stack`, as far as frames are closed down to a level of
at most `rank`. -/
inductive Standing (scope : Scope) (rank : Nat) (stack : List Frame) (value : Fragment) :
    State → Prop where
  | operator {top : List Frame} {operand : Fragment}
      (hsettle : ∀ level ≤ rank,
        settle scope.catalog level top operand = settle scope.catalog level stack value) :
      Standing scope rank stack value (.operator top operand)
  | name {top : List Frame} {head : Token} {operand : Fragment}
      (hresolve : ∀ following, resolveName scope head following = .ok operand)
      (hsettle : ∀ level ≤ rank,
        settle scope.catalog level top operand = settle scope.catalog level stack value) :
      Standing scope rank stack value (.name top head)

theorem Standing.transfer {rank rank' : Nat} {stack stack' : List Frame}
    {value value' : Fragment} {state : State} (h : Standing scope rank stack value state)
    (hle : rank' ≤ rank)
    (hsettle : ∀ level ≤ rank',
      settle scope.catalog level stack value = settle scope.catalog level stack' value') :
  Standing scope rank' stack' value' state
  := by
  cases h with
  | operator h =>
    apply Standing.operator
    intro level hlevel
    rw [h level (Nat.le_trans hlevel hle), hsettle level hlevel]
  | name hresolve h =>
    apply Standing.name hresolve
    intro level hlevel
    rw [h level (Nat.le_trans hlevel hle), hsettle level hlevel]

/-- A token that is no opening bracket is read after the operand. -/
theorem Standing.next {rank : Nat} {stack : List Frame} {value : Fragment} {state : State}
    (h : Standing scope rank stack value state) {token : Token}
    (hkind : token.kind ≠ .symbol .openParen) :
  ∃ top operand, state.next scope token = afterOperand scope.catalog top operand token
    ∧ ∀ level ≤ rank,
      settle scope.catalog level top operand = settle scope.catalog level stack value
  := by
  cases h with
  | operator hsettle => exact ⟨_, _, rfl, hsettle⟩
  | name hresolve hsettle =>
    refine ⟨_, _, ?_, hsettle⟩
    rw [State.next, if_neg (by simpa [Token.isSymbol] using hkind), hresolve]
    rfl

/-- A phrase of the level may stand after the stack.  What is as tight as a unary expression
may stand everywhere. -/
def Ready (level : Level) (stack : List Frame) : Prop :=
  level.rank < 6 → Admits level.rank stack

theorem Ready.tighten {level tighter : Level} {stack : List Frame} (h : Ready level stack)
    (hle : level.rank ≤ tighter.rank) :
  Ready tighter stack
  := by
  intro htighter
  exact (h (by omega)).mono hle

/-- A stack that admits no frame of the level keeps its operand. -/
theorem settle_of_admits {rank : Nat} {stack : List Frame} (h : Admits rank stack)
    (value : Fragment) :
  settle scope.catalog rank stack value = (stack, value)
  := by
  unfold Admits at h
  split at h
  · rw [settle, if_neg (by omega)]
  · cases h
  · unfold settle
    split <;> simp_all

/-- An operator takes the operand that stands before it. -/
theorem Standing.operator_next {op : Operator} {stack : List Frame} {left : Fragment}
    {state : State} (h : Standing scope op.leftLevel.rank stack left state)
    (hready : Ready op.level stack) {t : Terminal} (hop : t.operator? = some op) :
  Leads scope state [t] (· = .operand (.binary op left :: stack))
  := by
  apply Leads.single
  rintro token rfl
  rw [Token.terminal_operator?] at hop
  have hkind : token.kind ≠ .symbol .openParen := by
    intro hkind
    simp [Operator.ofToken?, hkind, Operator.ofSymbol?] at hop
  have hadmits : Admits op.level.rank stack := hready (by cases op <;> decide)
  have hle : op.level.rank ≤ closingLevel op := by cases op <;> decide
  obtain ⟨top, operand, hnext, hsettle⟩ := h.next hkind
  refine ⟨_, ?_, rfl⟩
  rw [hnext, afterOperand, hop]
  simp only
  rw [hsettle _ (Nat.le_of_eq op.leftLevel_rank.symm), settle_of_admits (hadmits.mono hle)]
  -- a stack that admits a comparison does not end in one
  have hchain : (op.isComparison && endsInComparison stack) = false := by
    unfold Admits at hadmits
    rw [op.level_rank] at hadmits
    split at hadmits
    · simp only [endsInComparison, Operator.isComparison, Bool.and_eq_false_iff,
        beq_eq_false_iff_ne]
      omega
    · cases hadmits
    · unfold endsInComparison
      split <;> simp_all
  simp [hchain]

/-- A token that is no opening bracket is read once all operators have taken their operands. -/
theorem Standing.punctuation {stack : List Frame} {value : Fragment} {state state' : State}
    (h : Standing scope 1 stack value state) {t : Terminal} (hkind : t.kind ≠ .symbol .openParen)
    (hnext : ∀ top operand (token : Token), token.terminal = t →
      settle scope.catalog 0 top operand = settle scope.catalog 0 stack value →
      afterOperand scope.catalog top operand token = .ok state') :
  Leads scope state [t] (· = state')
  := by
  apply Leads.single
  rintro token rfl
  obtain ⟨top, operand, hafter, hsettle⟩ := h.next hkind
  refine ⟨state', ?_, rfl⟩
  rw [hafter, hnext top operand token rfl (hsettle 0 (by decide))]

/-- A closing bracket ends the group that is open. -/
theorem Standing.close_group {stack : List Frame} {value : Fragment} {state : State}
    (h : Standing scope 1 (.group :: stack) value state) {t : Terminal}
    (hclose : t.kind = .symbol .closeParen) :
  Leads scope state [t] (· = .operator stack value)
  := by
  apply h.punctuation (by simp [hclose])
  rintro top operand token rfl hsettle
  rw [Token.terminal_kind] at hclose
  rw [afterOperand, hsettle]
  simp [Operator.ofToken?, Operator.ofSymbol?, hclose, Token.isSymbol, settle]

/-- A closing bracket ends the call that is at its last parameter. -/
theorem Standing.close_call {fields : Fragment.Fields} {parameter : Parameter}
    {stack : List Frame} {value : Fragment} {state : State}
    (h : Standing scope 1 (.argument fields parameter [] :: stack) value state) {t : Terminal}
    (hclose : t.kind = .symbol .closeParen) :
  Leads scope state [t] (· = .operator stack (.mapping (addArgument fields parameter value)))
  := by
  apply h.punctuation (by simp [hclose])
  rintro top operand token rfl hsettle
  rw [Token.terminal_kind] at hclose
  rw [afterOperand, hsettle]
  simp [Operator.ofToken?, Operator.ofSymbol?, hclose, Token.isSymbol, settle]

/-- A comma leads to the next parameter. -/
theorem Standing.next_argument {fields : Fragment.Fields} {parameter next : Parameter}
    {remaining : List Parameter} {stack : List Frame} {value : Fragment} {state : State}
    (h : Standing scope 1 (.argument fields parameter (next :: remaining) :: stack) value state)
    {t : Terminal} (hcomma : t.kind = .symbol .comma) :
  Leads scope state [t]
    (· = .operand (.argument (addArgument fields parameter value) next remaining :: stack))
  := by
  apply h.punctuation (by simp [hcomma])
  rintro top operand token rfl hsettle
  rw [Token.terminal_kind] at hcomma
  rw [afterOperand, hsettle]
  simp [Operator.ofToken?, Operator.ofSymbol?, hcomma, Token.isSymbol, settle]

/-! ### Reading operands -/

/-- Reading a sign or a bracket leads to the operand behind it. -/
theorem leads_frame {stack : List Frame} {t : Terminal} {frame : Frame}
    (h : ∀ token : Token, token.terminal = t →
      readOperand stack token = .ok (.operand (frame :: stack))) :
  Leads scope (.operand stack) [t] (· = .operand (frame :: stack))
  := by
  apply Leads.single
  intro token htoken
  exact ⟨_, h token htoken, rfl⟩

/-- Reading a name that is no keyword keeps it. -/
theorem leads_name {stack : List Frame} {t : Terminal} (hkind : t.kind = .identifier)
    (hword : ¬ isKeyword t.word) :
  Leads scope (.operand stack) [t]
    fun state => ∃ head : Token, head.terminal = t ∧ state = .name stack head
  := by
  apply Leads.single
  rintro token rfl
  refine ⟨_, ?_, token, rfl, rfl⟩
  rw [Token.terminal_kind] at hkind
  simp only [isKeyword, Token.terminal_word, List.mem_cons, List.not_mem_nil, or_false,
    not_or] at hword
  simp [State.next, readOperand, hkind, hword, keywords]

/-- A name that is no keyword and a bracket open a call. -/
theorem leads_openCall {stack : List Frame} {name opening : Terminal} {state : State}
    (hname : name.kind = .identifier) (hword : ¬ isKeyword name.word)
    (hopen : opening.kind = .symbol .openParen)
    (hcall : ∀ head : Token, head.terminal = name →
      openCall scope.catalog stack head = .ok state) :
  Leads scope (.operand stack) [name, opening] (· = state)
  := by
  apply (leads_name hname hword).cons
  rintro _ ⟨head, hhead, rfl⟩
  apply Leads.single
  rintro token rfl
  rw [Token.terminal_kind] at hopen
  refine ⟨_, ?_, rfl⟩
  rw [State.next, if_pos (by simp [Token.isSymbol, hopen]), hcall head hhead]

/-- What reading a phrase must lead to, wherever it may stand.  For arguments the place is a
call that has been opened at its first parameter, and they must not be more than its
parameters. -/
def Reads (scope : Scope) : Phrase → List Terminal → Prop
  | .value level f, ts =>
    ∀ stack, Ready level stack →
      Leads scope (.operand stack) ts (Standing scope level.rank stack f)
  | .arguments fs, ts =>
    ∀ (key : String) (stack : List Frame) (before after remaining : List Parameter)
      (parameter first : Parameter) (gs : List Fragment) (g : Fragment),
      fs = gs ++ [g] → gs.length = before.length →
      before ++ parameter :: after = first :: remaining →
      Leads scope (.operand (.argument [("function", .string key)] first remaining :: stack)) ts
        (Standing scope 1 (.argument (fieldsOf key before gs) parameter after :: stack) g)

/-! ### One rule at a time -/

theorem Reads.loosen {level tighter : Level} {f : Fragment} {ts : List Terminal}
    (hle : level.rank ≤ tighter.rank) (h : Reads scope (.value tighter f) ts) :
  Reads scope (.value level f) ts
  := by
  intro stack hready
  apply (h stack (hready.tighten hle)).mono
  intro state hstate
  apply hstate.transfer hle
  intro _ _
  rfl

theorem Reads.binary {op : Operator} {left right : Fragment} {ts us : List Terminal}
    {t : Terminal} (hop : t.operator? = some op) (hleft : Reads scope (.value op.leftLevel left) ts)
    (hright : Reads scope (.value op.rightLevel right) us) :
  Reads scope (.value op.level (op.apply scope.catalog left right)) (ts ++ t :: us)
  := by
  intro stack hready
  have hle : op.level.rank ≤ op.leftLevel.rank := by cases op <;> decide
  apply (hleft stack (hready.tighten hle)).append
  intro state hstate
  apply (hstate.operator_next hready hop).cons
  rintro _ rfl
  have hready' : Ready op.rightLevel (.binary op left :: stack) := by
    intro _
    rw [op.rightLevel_rank]
    exact Nat.lt_succ_self _
  apply (hright _ hready').mono
  intro state' hstate'
  apply hstate'.transfer (by cases op <;> decide)
  intro level hlevel
  rw [op.level_rank] at hlevel
  rw [settle, if_pos hlevel]

theorem Reads.negative {f : Fragment} {ts : List Terminal} {t : Terminal}
    (hminus : t.kind = .symbol .minus) (h : Reads scope (.value .unary f) ts) :
  Reads scope (.value .unary (negate f)) (t :: ts)
  := by
  intro stack hready
  have hsign : Leads scope (.operand stack) [t] (· = .operand (.negative :: stack)) := by
    apply leads_frame
    rintro token rfl
    rw [Token.terminal_kind] at hminus
    simp [readOperand, hminus]
  apply hsign.cons
  rintro _ rfl
  apply (h _ (fun hlt => absurd hlt (by decide))).mono
  intro state hstate
  apply hstate.transfer (Nat.le_refl _)
  intro level _
  rw [settle]

theorem Reads.group {f : Fragment} {ts : List Terminal} {opening closing : Terminal}
    (hopen : opening.kind = .symbol .openParen) (hclose : closing.kind = .symbol .closeParen)
    (h : Reads scope (.value .expression f) ts) :
  Reads scope (.value .primary f) (opening :: ts ++ [closing])
  := by
  intro stack _
  have hbracket : Leads scope (.operand stack) [opening] (· = .operand (.group :: stack)) := by
    apply leads_frame
    rintro token rfl
    rw [Token.terminal_kind] at hopen
    simp [readOperand, hopen]
  have hinside : Leads scope (.operand stack) (opening :: ts)
      (Standing scope 1 (.group :: stack) f) := by
    apply hbracket.cons
    rintro _ rfl
    exact h _ (fun _ => trivial)
  apply hinside.append
  intro state hstate
  apply (hstate.close_group hclose).mono
  rintro _ rfl
  exact .operator fun _ _ => rfl

/-- The parameter of the last argument is the last parameter, and the call ends behind it. -/
theorem Reads.call {signature : Signature} {fs : List Fragment} {ts : List Terminal}
    {name opening closing : Terminal} (hname : name.kind = .identifier)
    (hword : ¬ isKeyword name.word) (hfunction : scope.catalog.get? name.word = some signature)
    (harity : fs.length = signature.parameters.length) (hopen : opening.kind = .symbol .openParen)
    (hclose : closing.kind = .symbol .closeParen) (hne : fs ≠ [])
    (h : Reads scope (.arguments fs) ts) :
  Reads scope (.value .primary (callOf signature fs)) (name :: opening :: ts ++ [closing])
  := by
  intro stack _
  obtain ⟨gs, g, rfl⟩ := (List.eq_nil_or_concat' fs).resolve_left hne
  have hne' : signature.parameters ≠ [] := by
    intro hnil
    simp [hnil] at harity
  obtain ⟨before, parameter, hparameters⟩ :=
    (List.eq_nil_or_concat' signature.parameters).resolve_left hne'
  have hlength : gs.length = before.length := by
    simpa [hparameters] using harity
  obtain ⟨first, remaining, hfirst⟩ :
      ∃ first remaining, before ++ [parameter] = first :: remaining :=
    List.exists_cons_of_ne_nil (by simp)
  have hopened : Leads scope (.operand stack) [name, opening] (· = .operand
      (.argument [("function", .string signature.key)] first remaining :: stack)) := by
    apply leads_openCall hname hword hopen
    rintro head rfl
    rw [Token.terminal_word] at hfunction
    simp [openCall, hfunction, hparameters, hfirst]
  have harguments : Leads scope (.operand stack) (name :: opening :: ts)
      (Standing scope 1
        (.argument (fieldsOf signature.key before gs) parameter [] :: stack) g) := by
    change Leads scope _ ([name, opening] ++ ts) _
    apply hopened.append
    rintro _ rfl
    exact h signature.key stack before [] remaining parameter first gs g rfl hlength hfirst
  apply harguments.append
  intro state hstate
  apply (hstate.close_call hclose).mono
  rintro _ rfl
  rw [callOf, hparameters, fieldsOf_append_singleton _ _ _ _ _ hlength]
  exact .operator fun _ _ => rfl

theorem Reads.emptyCall {signature : Signature} {name opening closing : Terminal}
    (hname : name.kind = .identifier) (hword : ¬ isKeyword name.word)
    (hfunction : scope.catalog.get? name.word = some signature)
    (harity : signature.parameters = []) (hopen : opening.kind = .symbol .openParen)
    (hclose : closing.kind = .symbol .closeParen) :
  Reads scope (.value .primary (callOf signature [])) [name, opening, closing]
  := by
  intro stack _
  have hopened : Leads scope (.operand stack) [name, opening]
      (· = .emptyCall stack signature) := by
    apply leads_openCall hname hword hopen
    rintro head rfl
    rw [Token.terminal_word] at hfunction
    simp [openCall, hfunction, harity]
  change Leads scope _ ([name, opening] ++ [closing]) _
  apply hopened.append
  rintro _ rfl
  apply Leads.single
  rintro token rfl
  rw [Token.terminal_kind] at hclose
  refine ⟨.operator stack (.call signature.key), ?_, ?_⟩
  · simp [State.next, Token.isSymbol, hclose]
  · rw [callOf_nil]
    exact .operator fun _ _ => rfl

theorem Reads.first {f : Fragment} {ts : List Terminal}
    (h : Reads scope (.value .expression f) ts) :
  Reads scope (.arguments [f]) ts
  := by
  intro key stack before after remaining parameter first gs g hfs hlength hfirst
  obtain ⟨rfl, rfl⟩ : gs = [] ∧ f = g := by
    cases gs with
    | nil => simpa using hfs
    | cons => simp at hfs
  obtain rfl : before = [] := List.length_eq_zero_iff.mp hlength.symm
  obtain ⟨rfl, rfl⟩ : parameter = first ∧ after = remaining := by simpa using hfirst
  exact h _ (fun _ => trivial)

theorem Reads.further {fs : List Fragment} {f : Fragment} {ts us : List Terminal} {t : Terminal}
    (hcomma : t.kind = .symbol .comma) (hne : fs ≠ []) (hfs : Reads scope (.arguments fs) ts)
    (hf : Reads scope (.value .expression f) us) :
  Reads scope (.arguments (fs ++ [f])) (ts ++ t :: us)
  := by
  intro key stack before after remaining parameter first gs g happend hlength hfirst
  obtain ⟨rfl, rfl⟩ : fs = gs ∧ f = g := by simpa using List.append_inj' happend rfl
  have hne' : before ≠ [] := by
    rintro rfl
    simp [hne] at hlength
  obtain ⟨gs, g, rfl⟩ := (List.eq_nil_or_concat' fs).resolve_left hne
  obtain ⟨before, previous, rfl⟩ := (List.eq_nil_or_concat' before).resolve_left hne'
  have hlength' : gs.length = before.length := by simpa using hlength
  rw [List.append_assoc, List.singleton_append] at hfirst
  apply (hfs key stack before (parameter :: after) remaining previous first gs g rfl hlength'
    hfirst).append
  intro state hstate
  apply (hstate.next_argument hcomma).cons
  rintro _ rfl
  rw [← fieldsOf_append_singleton _ _ _ _ _ hlength']
  exact hf _ (fun _ => trivial)

/-- A primary expression of one token. -/
theorem reads_operand {t : Terminal} {f : Fragment}
    (h : ∀ stack (token : Token), token.terminal = t →
      readOperand stack token = .ok (.operator stack f)) :
  Reads scope (.value .primary f) [t]
  := by
  intro stack _
  apply Leads.single
  intro token htoken
  refine ⟨_, h stack token htoken, .operator ?_⟩
  intro _ _
  rfl

/-- A bare name that is resolved. -/
theorem reads_resolved {name : Terminal} {f : Fragment} (hname : name.kind = .identifier)
    (hword : ¬ isKeyword name.word)
    (hresolve : ∀ (head : Token) following, head.terminal = name →
      resolveName scope head following = .ok f) :
  Reads scope (.value .primary f) [name]
  := by
  intro stack _
  apply (leads_name hname hword).mono
  rintro _ ⟨head, hhead, rfl⟩
  apply Standing.name (hresolve head · hhead)
  intro _ _
  rfl

/-- Terminals that derive a phrase are read as it. -/
theorem Derives.reads {phrase : Phrase} {ts : List Terminal} (h : Derives scope phrase ts) :
  Reads scope phrase ts
  := by
  induction h with
  | loosen hle _ ih => exact ih.loosen hle
  | binary hop _ _ ihleft ihright => exact ihleft.binary hop ihright
  | negative hminus _ ih => exact ih.negative hminus
  | integer hkind =>
    apply reads_operand
    rintro stack token rfl
    rw [Token.terminal_kind] at hkind
    simp [readOperand, hkind]
  | float hkind =>
    apply reads_operand
    rintro stack token rfl
    rw [Token.terminal_kind] at hkind
    simp [readOperand, hkind, floatValue]
  | string hkind hclosed =>
    apply reads_operand
    rintro stack token rfl
    rw [Token.terminal_kind] at hkind
    have hflag : token.flags.unterminated = false := hclosed
    simp [readOperand, hkind, hflag]
  | trueWord hkind hword | falseWord hkind hword =>
    apply reads_operand
    rintro stack token rfl
    rw [Token.terminal_kind] at hkind
    rw [Token.terminal_word] at hword
    simp [readOperand, hkind, hword]
  | group hopen hclose _ ih => exact ih.group hopen hclose
  | call hname hword hfunction harity hopen hclose hargs ih =>
    exact ih.call hname hword hfunction harity hopen hclose hargs.arguments_ne_nil
  | emptyCall hname hword hfunction harity hopen hclose =>
    exact .emptyCall hname hword hfunction harity hopen hclose
  | constant hname hword hfunction harity =>
    apply reads_resolved hname hword
    rintro head following rfl
    rw [Token.terminal_word] at hfunction
    rw [callOf_nil, Catalog.key_of_get? hfunction]
    simp [resolveName, hfunction, harity]
  | declared hname hword hfunction htype =>
    apply reads_resolved hname hword
    rintro head following rfl
    rw [Token.terminal_word] at hfunction htype
    simp [resolveName, hfunction, htype, variableOf]
  | first _ ih => exact ih.first
  | further hcomma hargs _ ihargs ihf => exact ihargs.further hcomma hargs.arguments_ne_nil ihf

/-! ### Whole lines -/

/-- An operand that stands alone at the end of a line is its fragment. -/
theorem Standing.finish {value : Fragment} {state : State} (h : Standing scope 1 [] value state) :
  state.finish scope = .ok value
  := by
  cases h with
  | operator hsettle =>
    rw [State.finish, endAfterOperand, hsettle 0 (by decide)]
    rfl
  | name hresolve hsettle =>
    rw [State.finish, hresolve]
    show endAfterOperand _ _ _ = _
    rw [endAfterOperand, hsettle 0 (by decide)]
    rfl

/-- What can be parsed as an expression is parsed as one at the start of a line. -/
theorem run_start_of_run_operand {tokens : List Token} {f : Fragment}
    (h : (State.operand []).run scope tokens = .ok f) :
  State.start.run scope tokens = .ok f
  := by
  cases tokens with
  | nil => cases h
  | cons token rest =>
    rw [State.run] at h ⊢
    change (readOperand [] token).bind _ = _ at h
    rw [State.next]
    split
    · rename_i hat
      have hkind : token.kind = .symbol .at := by simpa [Token.isSymbol] using hat
      simp only [readOperand, hkind] at h
      cases h
    · exact h

/-- A fragment that a text derives is what the text is parsed as. -/
theorem parseLine_of_derivesLine {source : List Char} {f : Fragment}
    (h : DerivesLine scope f ((significantTokens source).map Token.terminal)) :
  parseLine scope source = .ok f
  := by
  rw [parseLine]
  generalize htokens : significantTokens source = tokens at h ⊢
  generalize hts : tokens.map Token.terminal = ts at h
  cases h with
  | @trigger sign name hsign hname hknown =>
    obtain ⟨first, rest, rfl, rfl, hrest⟩ := List.map_eq_cons_iff.mp hts
    obtain ⟨second, rfl, rfl⟩ := List.map_eq_singleton_iff.mp hrest
    rw [Token.terminal_kind] at hsign hname
    rw [Token.terminal_word] at hknown ⊢
    simp [State.run, State.next, Token.isSymbol, hsign, hname, hknown, State.finish, Except.bind]
  | expression h =>
    obtain ⟨state, hstate, hrun⟩ := h.reads [] (fun _ => trivial) tokens hts
    apply run_start_of_run_operand
    have hend := hrun []
    rw [List.append_nil, State.run] at hend
    rw [hend, hstate.finish]

/-- A text is parsed as exactly the fragments that its terminals derive. -/
theorem parseLine_eq_ok_iff (scope : Scope) (source : List Char) (f : Fragment) :
  parseLine scope source = .ok f
    ↔ DerivesLine scope f ((significantTokens source).map Token.terminal)
  := by
  constructor
  · exact derivesLine_of_parseLine
  · exact parseLine_of_derivesLine

end TriggerLang.Grammar
