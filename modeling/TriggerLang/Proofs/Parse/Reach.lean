import TriggerLang.Proofs.Grammar.Completion

/-!
# How far a line is read

A line is read token by token until one is refused, or its end.  What is refused is refused by
the state that has read the tokens before, and what has been read stays explained.
-/

namespace TriggerLang

namespace Parse

variable {scope : Scope}

/-- The state after tokens, if all of them are read. -/
def State.read (scope : Scope) : State → List Token → Except Failure State
  | state, [] => .ok state
  | state, token :: tokens => (state.next scope token).bind fun state => state.read scope tokens

/-- What follows tokens that are read goes on from the state after them. -/
theorem State.run_append {state state' : State} {before : List Token}
    (h : state.read scope before = .ok state') (rest : List Token) :
  state.run scope (before ++ rest) = state'.run scope rest
  := by
  induction before generalizing state with
  | nil =>
    cases h
    rfl
  | cons token before ih =>
    rw [State.read] at h
    rw [List.cons_append, State.run]
    cases hnext : state.next scope token with
    | error failure =>
      rw [hnext] at h
      cases h
    | ok next =>
      rw [hnext] at h
      exact ih h

/-- What comes first among tokens that are read is read. -/
theorem State.exists_read {state state' : State} {before rest : List Token}
    (h : state.read scope (before ++ rest) = .ok state') :
  ∃ between, state.read scope before = .ok between ∧ between.read scope rest = .ok state'
  := by
  induction before generalizing state with
  | nil => exact ⟨state, rfl, h⟩
  | cons token before ih =>
    rw [List.cons_append, State.read] at h
    rw [State.read]
    cases hnext : state.next scope token with
    | error failure =>
      rw [hnext] at h
      cases h
    | ok next =>
      rw [hnext] at h
      exact ih h

/-- What comes first among tokens that are accepted is read. -/
theorem State.exists_read_of_run {state : State} {before rest : List Token} {f : Fragment}
    (h : state.run scope (before ++ rest) = .ok f) :
  ∃ between, state.read scope before = .ok between ∧ between.run scope rest = .ok f
  := by
  induction before generalizing state with
  | nil => exact ⟨state, rfl, h⟩
  | cons token before ih =>
    rw [List.cons_append, State.run] at h
    rw [State.read]
    cases hnext : state.next scope token with
    | error failure =>
      rw [hnext] at h
      cases h
    | ok next =>
      rw [hnext] at h
      exact ih h

/-- Tokens are refused at one of them, by the state that has read those before it, or at their
end. -/
inductive Refused (scope : Scope) (state : State) (tokens : List Token) (failure : Failure) : Prop
  | token {before after : List Token} {token : Token} {state' : State}
      (htokens : tokens = before ++ token :: after)
      (hread : state.read scope before = .ok state')
      (hrefused : state'.next scope token = .error failure)
  | atEnd {state' : State} (hread : state.read scope tokens = .ok state')
      (hrefused : state'.finish scope = .error failure)

/-- A failure comes from the state that has read everything before it. -/
theorem refused_of_run {state : State} {tokens : List Token} {failure : Failure}
    (h : state.run scope tokens = .error failure) :
  Refused scope state tokens failure
  := by
  induction tokens generalizing state with
  | nil => exact .atEnd rfl h
  | cons token rest ih =>
    rw [State.run] at h
    cases hnext : state.next scope token with
    | error failure' =>
      rw [hnext] at h
      cases h
      exact @Refused.token _ _ _ _ [] rest token state rfl rfl hnext
    | ok next =>
      have hread : ∀ tokens, state.read scope (token :: tokens) = next.read scope tokens := by
        intro tokens
        rw [State.read, hnext]
        rfl
      rw [hnext] at h
      cases ih h with
      | @token before after token' state' htokens hbefore hrefused =>
        have htokens' : token :: rest = token :: before ++ token' :: after :=
          congrArg (token :: ·) htokens
        exact .token htokens' ((hread before).trans hbefore) hrefused
      | atEnd hrest hrefused => exact .atEnd ((hread rest).trans hrest) hrefused

end Parse

namespace Grammar

open Parse

variable {scope : Scope}

/-- What is read within an expression stays within it. -/
theorem Within.read {state state' : State} {before tokens : List Token}
    (hstate : Within scope state before) (h : state.read scope tokens = .ok state') :
  Within scope state' (before ++ tokens)
  := by
  induction tokens generalizing state before with
  | nil =>
    cases h
    rwa [List.append_nil]
  | cons token rest ih =>
    rw [State.read] at h
    cases hnext : state.next scope token with
    | error failure =>
      rw [hnext] at h
      cases h
    | ok next =>
      rw [hnext] at h
      have hrest := ih (hstate.next hnext) h
      rwa [List.append_assoc] at hrest

/-- What is read of a line that is no trigger is read within an expression. -/
theorem within_of_read {tokens : List Token} {state : State}
    (h : (State.operand []).read scope tokens = .ok state) :
  Within scope state tokens
  := by
  have hstart : Within scope (.operand []) [] := ⟨.nil, trivial⟩
  exact hstart.read h

end Grammar

end TriggerLang
