import Mathlib.Tactic.Common
import TriggerLang.Proofs.Grammar.Derivation

/-!
# What is parsed is derived

While a line is parsed, the terminals read so far are those of the frames on the stack, from
the outermost one in, and of the operand after them, if one has been read (`Explains`).
Every token keeps it so, and at the end of the line the operand that is left is derived from
all terminals.
-/

namespace TriggerLang.Grammar

open Parse

variable {scope : Scope}

/-! ### Stacks -/

/-- No frame on top waits for an operand tighter than `rank` or of that rank. -/
def Admits (rank : Nat) : List Frame → Prop
  | .binary op _ :: _ => op.precedence < rank
  | .negative :: _ => False
  | _ => True

theorem Admits.mono {rank rank' : Nat} {stack : List Frame} (h : Admits rank stack)
    (hle : rank ≤ rank') :
  Admits rank' stack
  := by
  unfold Admits at *
  split at h
  · exact Nat.lt_of_lt_of_le h hle
  · exact h
  · trivial

/-- A stack that ends in no comparison admits a comparison if it admits its operands. -/
theorem Admits.of_closingLevel {op : Operator} {stack : List Frame}
    (h : Admits (closingLevel op) stack)
    (hchain : ¬ (op.isComparison && endsInComparison stack) = true) :
  Admits op.level.rank stack
  := by
  rw [op.level_rank]
  unfold closingLevel at h
  split at h
  · rename_i hop
    unfold Admits at h ⊢
    split at h
    · rename_i op' _ _
      simp only [hop, endsInComparison, Bool.true_and, Bool.not_eq_true] at hchain
      simp only [Operator.isComparison, beq_iff_eq, beq_eq_false_iff_ne] at hop hchain
      omega
    · exact h
    · trivial
  · exact h

/-- The arguments before a parameter of a call with the terminals they were read from. -/
inductive Passed (scope : Scope) : List Fragment → List Terminal → Prop where
  | none : Passed scope [] []
  | some {fs : List Fragment} {ts : List Terminal} {t : Terminal}
      (hcomma : t.kind = .symbol .comma) (h : Derives scope (.arguments fs) ts) :
      Passed scope fs (ts ++ [t])

/-- The frames are those that the terminals open. -/
inductive Opened (scope : Scope) : List Frame → List Terminal → Prop where
  | nil : Opened scope [] []
  | binary {op : Operator} {left : Fragment} {stack : List Frame} {ts us : List Terminal}
      {t : Terminal} (hstack : Opened scope stack ts) (hadmits : Admits op.level.rank stack)
      (hleft : Derives scope (.value op.leftLevel left) us) (hop : t.operator? = some op) :
      Opened scope (.binary op left :: stack) (ts ++ (us ++ [t]))
  | negative {stack : List Frame} {ts : List Terminal} {t : Terminal}
      (hstack : Opened scope stack ts) (hminus : t.kind = .symbol .minus) :
      Opened scope (.negative :: stack) (ts ++ [t])
  | group {stack : List Frame} {ts : List Terminal} {t : Terminal}
      (hstack : Opened scope stack ts) (hopen : t.kind = .symbol .openParen) :
      Opened scope (.group :: stack) (ts ++ [t])
  | argument {signature : Signature} {before remaining : List Parameter} {parameter : Parameter}
      {fs : List Fragment} {stack : List Frame} {ts us : List Terminal} {name opening : Terminal}
      (hstack : Opened scope stack ts)
      (hname : name.kind = .identifier) (hword : ¬ isKeyword name.word)
      (hfunction : scope.catalog.get? name.word = some signature)
      (hparameters : signature.parameters = before ++ parameter :: remaining)
      (hlength : fs.length = before.length)
      (hopen : opening.kind = .symbol .openParen)
      (hpassed : Passed scope fs us) :
      Opened scope
        (.argument (fieldsOf signature.key before fs) parameter remaining :: stack)
        (ts ++ (name :: opening :: us))

/-- An operand of level `level` can be taken by the frame on top. -/
def Accepts (level : Level) : List Frame → Prop
  | .binary op _ :: _ => op.precedence < level.rank
  | .negative :: _ => 6 ≤ level.rank
  | _ => True

theorem Accepts.of_admits {level : Level} {stack : List Frame}
    (h : Admits level.rank stack) :
  Accepts level stack
  := by
  unfold Admits at h
  unfold Accepts
  split at h
  · exact h
  · cases h
  · trivial

/-- Every frame can take a tight operand. -/
theorem accepts_of_six_le (level : Level) (h : 6 ≤ level.rank) (stack : List Frame) :
  Accepts level stack
  := by
  unfold Accepts
  split
  · rename_i op _ _
    cases op <;> simp only [Operator.precedence] <;> omega
  · exact h
  · trivial

/-- Closing frames derives the operand they make from the terminals of both. -/
theorem settle_sound (rank : Nat) {stack : List Frame} {f : Fragment} {level : Level}
    {ts us : List Terminal} (hstack : Opened scope stack ts)
    (hf : Derives scope (.value level f) us) (haccepts : Accepts level stack)
    (hrank : rank ≤ level.rank) (hsix : rank ≤ 6) :
  ∃ level' ts' us', Opened scope (settle scope.catalog rank stack f).1 ts'
    ∧ Derives scope (.value level' (settle scope.catalog rank stack f).2) us'
    ∧ rank ≤ level'.rank ∧ Admits rank (settle scope.catalog rank stack f).1
    ∧ ts' ++ us' = ts ++ us
  := by
  induction hstack generalizing f level us with
  | nil => exact ⟨level, [], us, .nil, hf, hrank, trivial, rfl⟩
  | group hstack hopen =>
    exact ⟨level, _, us, .group hstack hopen, hf, hrank, trivial, rfl⟩
  | argument hstack hname hword hfunction hparameters hlength hopen hpassed =>
    exact ⟨level, _, us,
      .argument hstack hname hword hfunction hparameters hlength hopen hpassed,
      hf, hrank, trivial, rfl⟩
  | @negative stack ts t hstack hminus ih =>
    -- the minus sign takes the operand
    have hneg : Derives scope (.value .unary (negate f)) (t :: us) :=
      .negative hminus (.loosen haccepts hf)
    obtain ⟨level', ts', us', h₁, h₂, h₃, h₄, h₅⟩ :=
      ih hneg (accepts_of_six_le .unary (by decide) stack) hsix
    refine ⟨level', ts', us', h₁, h₂, h₃, h₄, ?_⟩
    rw [h₅, List.append_assoc]
    rfl
  | @binary op left stack ts vs t hstack hadmits hleft hop ih =>
    rw [settle]
    split
    · have hright : Derives scope (.value op.rightLevel f) us := by
        apply Derives.loosen _ hf
        rw [op.rightLevel_rank]
        exact haccepts
      have hle : rank ≤ op.level.rank := by
        rw [op.level_rank]
        assumption
      obtain ⟨level', ts', us', h₁, h₂, h₃, h₄, h₅⟩ :=
        ih (.binary hop hleft hright) (.of_admits hadmits) hle
      refine ⟨level', ts', us', h₁, h₂, h₃, h₄, ?_⟩
      rw [h₅]
      simp only [List.append_assoc, List.singleton_append]
    · refine ⟨level, _, us, .binary hstack hadmits hleft hop, hf, hrank, ?_, rfl⟩
      exact Nat.lt_of_not_le ‹_›

/-! ### States -/

/-- The state explains the terminals read so far. -/
def Explains (scope : Scope) : State → List Terminal → Prop
  | .start, ts => ts = []
  | .triggerSign, ts => ∃ sign, ts = [sign] ∧ sign.kind = .symbol .at
  | .trigger word, ts => ∃ sign name, ts = [sign, name] ∧ sign.kind = .symbol .at
    ∧ name.kind = .identifier ∧ name.word = word ∧ scope.knowsTrigger word = true
  | .operand stack, ts => Opened scope stack ts
  | .name stack head, ts => ∃ us, Opened scope stack us ∧ head.kind = .identifier
    ∧ ¬ isKeyword head.word ∧ ts = us ++ [head.terminal]
  | .emptyCall stack signature, ts => ∃ us name opening, Opened scope stack us
    ∧ name.kind = .identifier ∧ ¬ isKeyword name.word
    ∧ scope.catalog.get? name.word = some signature ∧ signature.parameters = []
    ∧ opening.kind = .symbol .openParen ∧ ts = us ++ [name, opening]
  | .operator stack f, ts => ∃ us vs, Opened scope stack us
    ∧ Derives scope (.value .primary f) vs ∧ ts = us ++ vs

/-- A token in the place of an operand keeps the terminals explained. -/
theorem explains_readOperand {stack : List Frame} {token : Token} {state : State}
    {ts : List Terminal} (hstack : Opened scope stack ts)
    (h : readOperand stack token = .ok state) :
  Explains scope state (ts ++ [token.terminal])
  := by
  rw [readOperand] at h
  split at h
  case h_1 hkind =>
    cases h
    exact ⟨ts, _, hstack, .integer (t := token.terminal) hkind, rfl⟩
  case h_2 hkind =>
    cases h
    exact ⟨ts, _, hstack, .float (t := token.terminal) hkind, rfl⟩
  case h_3 hkind =>
    split at h
    · cases h
    · cases h
      refine ⟨ts, _, hstack, .string (t := token.terminal) hkind ?_, rfl⟩
      exact Bool.eq_false_iff.mpr ‹_›
  case h_4 hkind =>
    cases h
    exact .group hstack hkind
  case h_5 hkind =>
    cases h
    exact .negative hstack hkind
  case h_6 hkind =>
    split at h
    · cases h
      exact ⟨ts, _, hstack, .trueWord (t := token.terminal) hkind ‹_›, rfl⟩
    split at h
    · cases h
      exact ⟨ts, _, hstack, .falseWord (t := token.terminal) hkind ‹_›, rfl⟩
    split at h
    · cases h
    · cases h
      refine ⟨ts, hstack, hkind, ?_, rfl⟩
      simp_all [isKeyword, keywords]
  case h_7 => cases h

/-- What a name stands for without a bracket after it is derived from it. -/
theorem derives_of_resolveName {head : Token} {following : Option Token} {f : Fragment}
    (hkind : head.kind = .identifier) (hword : ¬ isKeyword head.word)
    (h : resolveName scope head following = .ok f) :
  Derives scope (.value .primary f) [head.terminal]
  := by
  rw [resolveName] at h
  split at h
  · rename_i signature hfunction
    split at h
    · cases h
      rw [← Catalog.key_of_get? hfunction, ← callOf_nil]
      exact .constant hkind hword hfunction (by simp_all)
    · cases h
  · split at h
    · cases h
      have hf : Derives scope (.value .primary (variableOf head.terminal.word _)) [head.terminal] :=
        .declared hkind hword ‹_› ‹_›
      exact hf
    · cases h

/-- One more argument follows those that have been passed. -/
theorem Passed.arguments {fs : List Fragment} {f : Fragment} {us vs : List Terminal}
    (h : Passed scope fs us) (hf : Derives scope (.value .expression f) vs) :
  Derives scope (.arguments (fs ++ [f])) (us ++ vs)
  := by
  cases h with
  | none => exact .first hf
  | some hcomma h =>
    rw [List.append_assoc]
    exact .further hcomma h hf

/-- A bracket that is closed makes a primary expression. -/
theorem Opened.close_group {stack : List Frame} {f : Fragment} {t : Terminal}
    {ts us : List Terminal} (h : Opened scope (.group :: stack) ts)
    (hf : Derives scope (.value .expression f) us) (hclose : t.kind = .symbol .closeParen) :
  Explains scope (.operator stack f) (ts ++ us ++ [t])
  := by
  cases h with
  | @group _ ts' opening hstack hopen =>
    use ts', opening :: us ++ [t], hstack, .group hopen hclose hf
    simp

/-- The bracket after the last argument makes a call. -/
theorem Opened.close_call {fields : Fragment.Fields} {parameter : Parameter}
    {stack : List Frame} {f : Fragment} {t : Terminal} {ts us : List Terminal}
    (h : Opened scope (.argument fields parameter [] :: stack) ts)
    (hf : Derives scope (.value .expression f) us) (hclose : t.kind = .symbol .closeParen) :
  Explains scope (.operator stack (.mapping (addArgument fields parameter f))) (ts ++ us ++ [t])
  := by
  cases h with
  | @argument signature before _ _ fs _ ts' vs name opening hstack hname hword hfunction
      hparameters hlength hopen hpassed =>
    have harity : (fs ++ [f]).length = signature.parameters.length := by
      rw [hparameters, List.length_append, List.length_append, hlength]
      rfl
    have hcall := Derives.call hname hword hfunction harity hopen hclose (hpassed.arguments hf)
    rw [callOf, hparameters, fieldsOf_append_singleton _ _ _ _ _ hlength] at hcall
    refine ⟨ts', _, hstack, hcall, ?_⟩
    simp

/-- The comma after an argument leads to the next parameter. -/
theorem Opened.next_argument {fields : Fragment.Fields} {parameter next : Parameter}
    {remaining : List Parameter} {stack : List Frame} {f : Fragment} {t : Terminal}
    {ts us : List Terminal}
    (h : Opened scope (.argument fields parameter (next :: remaining) :: stack) ts)
    (hf : Derives scope (.value .expression f) us) (hcomma : t.kind = .symbol .comma) :
  Opened scope (.argument (addArgument fields parameter f) next remaining :: stack)
    (ts ++ us ++ [t])
  := by
  cases h with
  | @argument signature before _ _ fs _ ts' vs name opening hstack hname hword hfunction
      hparameters hlength hopen hpassed =>
    have hpassed' := Passed.some hcomma (hpassed.arguments hf)
    have hparameters' : signature.parameters = (before ++ [parameter]) ++ next :: remaining := by
      rw [hparameters, List.append_assoc]
      rfl
    have hlength' : (fs ++ [f]).length = (before ++ [parameter]).length := by
      rw [List.length_append, List.length_append, hlength]
      rfl
    have hopened :=
      Opened.argument hstack hname hword hfunction hparameters' hlength' hopen hpassed'
    rw [fieldsOf_append_singleton _ _ _ _ _ hlength] at hopened
    simpa using hopened

/-- An operator after an operand keeps the terminals explained. -/
theorem explains_operator {op : Operator} {stack : List Frame} {f : Fragment} {t : Terminal}
    {ts us : List Terminal} (hstack : Opened scope stack ts)
    (hf : Derives scope (.value .primary f) us) (hop : t.operator? = some op)
    (hchain : ¬ (op.isComparison &&
      endsInComparison (settle scope.catalog (closingLevel op) stack f).1) = true) :
  Opened scope
    (.binary op (settle scope.catalog (closingLevel op) stack f).2 ::
      (settle scope.catalog (closingLevel op) stack f).1)
    (ts ++ us ++ [t])
  := by
  obtain ⟨level, ts', us', hstack', hf', hle, hadmits, happend⟩ :=
    settle_sound (closingLevel op) hstack hf
      (accepts_of_six_le .primary (by decide) stack)
      (by cases op <;> decide) (by cases op <;> decide)
  rw [← happend, List.append_assoc]
  rw [← op.leftLevel_rank] at hle
  exact .binary hstack' (hadmits.of_closingLevel hchain) (.loosen hle hf') hop

/-- A token after an operand keeps the terminals explained. -/
theorem explains_afterOperand {stack : List Frame} {f : Fragment} {token : Token} {state : State}
    {ts us : List Terminal} (hstack : Opened scope stack ts)
    (hf : Derives scope (.value .primary f) us)
    (h : afterOperand scope.catalog stack f token = .ok state) :
  Explains scope state (ts ++ us ++ [token.terminal])
  := by
  simp only [afterOperand] at h
  split at h
  · rename_i op hop
    split at h
    · cases h
    · cases h
      exact explains_operator (t := token.terminal) hstack hf hop ‹_›
  · -- without an operator everything is closed up to the innermost bracket
    obtain ⟨level, ts', us', hstack', hf', -, -, happend⟩ :=
      settle_sound 0 hstack hf
        (accepts_of_six_le .primary (by decide) stack) (by decide) (by decide)
    have hexpression : Derives scope (.value .expression _) us' :=
      .loosen (by cases level <;> decide) hf'
    rw [← happend]
    split at h
    · rename_i heq
      rw [heq] at hstack' hexpression
      split at h
      · cases h
        exact hstack'.close_group hexpression
          (by simpa [Token.isSymbol] using ‹token.isSymbol .closeParen = true›)
      · cases h
    · rename_i heq
      rw [heq] at hstack' hexpression
      split at h
      · cases h
        exact hstack'.close_call hexpression
          (by simpa [Token.isSymbol] using ‹token.isSymbol .closeParen = true›)
      · cases h
    · rename_i heq
      rw [heq] at hstack' hexpression
      split at h
      · cases h
        exact hstack'.next_argument hexpression
          (by simpa [Token.isSymbol] using ‹token.isSymbol .comma = true›)
      · cases h
    · cases h

/-- The bracket after a name keeps the terminals explained. -/
theorem explains_openCall {stack : List Frame} {head token : Token} {state : State}
    {ts : List Terminal} (hstack : Opened scope stack ts) (hkind : head.kind = .identifier)
    (hword : ¬ isKeyword head.word) (hopen : token.kind = .symbol .openParen)
    (h : openCall scope.catalog stack head = .ok state) :
  Explains scope state (ts ++ [head.terminal] ++ [token.terminal])
  := by
  rw [openCall] at h
  rw [List.append_assoc]
  split at h
  · cases h
  · rename_i signature hfunction
    split at h
    · cases h
      exact ⟨ts, head.terminal, token.terminal, hstack, hkind, hword, hfunction, ‹_›, hopen, rfl⟩
    · cases h
      have hopened : Opened scope (.argument (fieldsOf signature.key [] []) _ _ :: stack)
          (ts ++ [head.terminal, token.terminal]) :=
        .argument hstack hkind hword hfunction ‹_› rfl hopen .none
      exact hopened

/-- Every token keeps the terminals explained. -/
theorem explains_next {state state' : State} {token : Token} {ts : List Terminal}
    (hstate : Explains scope state ts) (h : state.next scope token = .ok state') :
  Explains scope state' (ts ++ [token.terminal])
  := by
  cases state with
  | start =>
    obtain rfl := hstate
    rw [State.next] at h
    split at h
    · cases h
      exact ⟨token.terminal, rfl, by simpa [Token.isSymbol] using ‹token.isSymbol .at = true›⟩
    · exact explains_readOperand .nil h
  | triggerSign =>
    obtain ⟨sign, rfl, hsign⟩ := hstate
    rw [State.next] at h
    split at h
    · split at h
      · cases h
        exact ⟨sign, token.terminal, rfl, hsign, ‹_›, rfl, ‹_›⟩
      · cases h
    · cases h
  | trigger word => cases h
  | operand stack => exact explains_readOperand hstate h
  | name stack head =>
    obtain ⟨us, hstack, hkind, hword, rfl⟩ := hstate
    rw [State.next] at h
    split at h
    · exact explains_openCall hstack hkind hword
        (by simpa [Token.isSymbol] using ‹token.isSymbol .openParen = true›) h
    · cases hvalue : resolveName scope head (some token) with
      | error failure =>
        rw [hvalue] at h
        cases h
      | ok f =>
        rw [hvalue] at h
        exact explains_afterOperand hstack (derives_of_resolveName hkind hword hvalue) h
  | emptyCall stack signature =>
    obtain ⟨us, name, opening, hstack, hkind, hword, hfunction, harity, hopen, rfl⟩ := hstate
    rw [State.next] at h
    split at h
    · cases h
      rw [← callOf_nil]
      have hclose : token.terminal.kind = .symbol .closeParen := by
        simpa [Token.isSymbol] using ‹token.isSymbol .closeParen = true›
      refine ⟨us, _, hstack, .emptyCall hkind hword hfunction harity hopen hclose, ?_⟩
      simp
    · cases h
  | operator stack f =>
    obtain ⟨us, vs, hstack, hf, rfl⟩ := hstate
    exact explains_afterOperand hstack hf h

/-- An operand with which a line ends is closed up to an expression. -/
theorem derivesLine_of_endAfterOperand {stack : List Frame} {f g : Fragment}
    {ts us : List Terminal} (hstack : Opened scope stack ts)
    (hf : Derives scope (.value .primary f) us)
    (h : endAfterOperand scope.catalog stack f = .ok g) :
  DerivesLine scope g (ts ++ us)
  := by
  obtain ⟨level, ts', us', hstack', hf', -, -, happend⟩ :=
    settle_sound 0 hstack hf
      (accepts_of_six_le .primary (by decide) stack) (by decide) (by decide)
  rw [endAfterOperand] at h
  split at h
  · rename_i heq
    cases h
    rw [heq] at hstack' hf'
    cases hstack'
    rw [← happend]
    exact .expression (.loosen (by cases level <;> decide) hf')
  · cases h

/-- At the end of a line all terminals are those of the fragment. -/
theorem derivesLine_of_finish {state : State} {f : Fragment} {ts : List Terminal}
    (hstate : Explains scope state ts) (h : state.finish scope = .ok f) :
  DerivesLine scope f ts
  := by
  cases state with
  | start => cases h
  | triggerSign => cases h
  | trigger word =>
    cases h
    obtain ⟨sign, name, rfl, hsign, hname, rfl, hknown⟩ := hstate
    exact .trigger hsign hname hknown
  | operand stack => cases h
  | name stack head =>
    obtain ⟨us, hstack, hkind, hword, rfl⟩ := hstate
    rw [State.finish] at h
    cases hvalue : resolveName scope head none with
    | error failure =>
      rw [hvalue] at h
      cases h
    | ok f =>
      rw [hvalue] at h
      exact derivesLine_of_endAfterOperand hstack (derives_of_resolveName hkind hword hvalue) h
  | emptyCall stack signature => cases h
  | operator stack g =>
    obtain ⟨us, vs, hstack, hg, rfl⟩ := hstate
    exact derivesLine_of_endAfterOperand hstack hg h

/-- What parsing makes of the tokens that remain is derived from all of them. -/
theorem derivesLine_of_run {state : State} {tokens : List Token} {f : Fragment}
    {ts : List Terminal} (hstate : Explains scope state ts)
    (h : state.run scope tokens = .ok f) :
  DerivesLine scope f (ts ++ tokens.map Token.terminal)
  := by
  induction tokens generalizing state ts with
  | nil =>
    rw [List.map_nil, List.append_nil]
    exact derivesLine_of_finish hstate h
  | cons token rest ih =>
    rw [State.run] at h
    cases hnext : state.next scope token with
    | error failure =>
      rw [hnext] at h
      cases h
    | ok state' =>
      rw [hnext] at h
      have := ih (explains_next hstate hnext) h
      rwa [List.append_assoc] at this

/-- A fragment that a text is parsed as is derived from the text. -/
theorem derivesLine_of_parseLine {source : List Char} {f : Fragment}
    (h : parseLine scope source = .ok f) :
  DerivesLine scope f ((significantTokens source).map Token.terminal)
  := derivesLine_of_run (show Explains scope .start [] from rfl) h

end TriggerLang.Grammar
