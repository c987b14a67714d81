import TriggerLang.Proofs.Grammar.Known
import TriggerLang.Proofs.Lexing.Place
import TriggerLang.Proofs.Parse.Reach
import TriggerLang.Script.Outcome

/-!
# Where undefined names are found

A name that stands for nothing is refused when the next token is read, or at the end, and is
then looked for among the identifiers of the text.  Every identifier before it has been read,
and so it is known and another one.  The first identifier with the name is therefore the one
that was refused, and the diagnostic marks it.
-/

namespace TriggerLang

namespace Parse

variable {scope : Scope} {name : Token}

/-- The failure is for the name: it stands for nothing, or for no function where a bracket
follows it. -/
inductive Failure.Blames (name : Token) : Failure → Prop
  | undefined : Blames name (.undefined name)
  | function : Blames name (.unexpected (some name) [.function])

/-- Reading stops at the name: what comes before it is read and has other words, and whatever
comes after it, the name is refused. -/
structure Stops (scope : Scope) (before : List Token) (name : Token) : Prop where
  kind : name.kind = .identifier
  others : ∀ t ∈ before, t.isWord name.word = false
  read : ∃ state, State.start.read scope before = .ok state
  refused : ∀ after, ∃ failure,
    State.start.run scope (before ++ name :: after) = .error failure ∧ failure.Blames name

/-! ### Names that are kept -/

/-- A kept name that is not known is refused whatever follows it. -/
theorem exists_blames_of_not_known {stack : List Frame} (hunknown : ¬ Grammar.Known scope name.word)
    (after : List Token) :
  ∃ failure, (State.name stack name).run scope after = .error failure ∧ failure.Blames name
  := by
  have hfunction : scope.catalog.get? name.word = none := by
    rw [← Option.not_isSome_iff_eq_none]
    exact fun h => hunknown (.inr (.inl h))
  have hvariable : scope.declarations.variableType? name.word = none := by
    rw [← Option.not_isSome_iff_eq_none]
    exact fun h => hunknown (.inr (.inr h))
  have hresolve : ∀ following, resolveName scope name following = .error (.undefined name) := by
    intro following
    rw [resolveName, hfunction, hvariable]
  cases after with
  | nil =>
    refine ⟨_, ?_, .undefined⟩
    rw [State.run, State.finish, hresolve]
    rfl
  | cons token rest =>
    rw [State.run, State.next]
    split
    · refine ⟨_, ?_, .function⟩
      rw [openCall, hfunction]
      rfl
    · refine ⟨_, ?_, .undefined⟩
      rw [hresolve]
      rfl

theorem readOperand_ne_undefined {stack : List Frame} {token : Token} :
  readOperand stack token ≠ .error (.undefined name)
  := by
  intro h
  rw [readOperand] at h
  split at h
  case h_3 => split at h <;> cases h
  case h_6 =>
    split at h
    · cases h
    split at h
    · cases h
    split at h <;> cases h
  all_goals cases h

/-- Within an expression only a name that is kept and not known is undefined. -/
theorem of_next_eq_undefined {state : State} {before : List Token} {token : Token}
    (hstate : Grammar.Within scope state before)
    (h : state.next scope token = .error (.undefined name)) :
  ∃ stack, state = .name stack name ∧ ¬ Grammar.Known scope name.word
  := by
  cases state with
  | start => exact hstate.endsIn.elim
  | triggerSign => exact hstate.endsIn.elim
  | trigger word => exact hstate.endsIn.elim
  | operand stack => exact absurd h readOperand_ne_undefined
  | name stack head =>
    obtain ⟨-, -, -, -, hword⟩ := hstate.exists_opened
    rw [State.next] at h
    split at h
    · rw [openCall] at h
      split at h
      · cases h
      · split at h <;> cases h
    · cases hvalue : resolveName scope head (some token) with
      | ok value =>
        rw [hvalue] at h
        cases Grammar.eq_of_afterOperand_eq_error h
      | error failure =>
        rw [hvalue] at h
        cases h
        obtain ⟨rfl, hunknown⟩ := Grammar.of_resolveName_eq_undefined hword hvalue
        exact ⟨stack, rfl, hunknown⟩
  | emptyCall stack signature =>
    rw [State.next] at h
    split at h <;> cases h
  | operator stack value => cases Grammar.eq_of_afterOperand_eq_error h

theorem of_finish_eq_undefined {state : State} {before : List Token}
    (hstate : Grammar.Within scope state before)
    (h : state.finish scope = .error (.undefined name)) :
  ∃ stack, state = .name stack name ∧ ¬ Grammar.Known scope name.word
  := by
  cases state with
  | start => exact hstate.endsIn.elim
  | triggerSign => exact hstate.endsIn.elim
  | trigger word => exact hstate.endsIn.elim
  | operand stack => cases h
  | name stack head =>
    obtain ⟨-, -, -, -, hword⟩ := hstate.exists_opened
    rw [State.finish] at h
    cases hvalue : resolveName scope head none with
    | ok value =>
      rw [hvalue] at h
      cases Grammar.eq_of_endAfterOperand_eq_error h
    | error failure =>
      rw [hvalue] at h
      cases h
      obtain ⟨rfl, hunknown⟩ := Grammar.of_resolveName_eq_undefined hword hvalue
      exact ⟨stack, rfl, hunknown⟩
  | emptyCall stack signature => cases h
  | operator stack value => cases Grammar.eq_of_endAfterOperand_eq_error h

/-! ### Where reading stops -/

/-- A name that is kept within an expression and is not known is where reading stops. -/
theorem exists_stops_of_name {stack : List Frame} {tokens : List Token}
    (hsign : ∀ t ∈ tokens.head?, t.kind ≠ .symbol .at)
    (hread : (State.operand []).read scope tokens = .ok (.name stack name))
    (hunknown : ¬ Grammar.Known scope name.word) :
  ∃ before, tokens = before ++ [name] ∧ Stops scope before name
  := by
  obtain ⟨before, rfl, hopened, hkind, -⟩ := (Grammar.within_of_read hread).exists_opened
  have hsign' : ∀ rest, ∀ t ∈ (before ++ name :: rest).head?, t.kind ≠ .symbol .at := by
    cases before <;> exact fun _ => hsign
  refine ⟨before, rfl, hkind, ?_, ?_, ?_⟩
  · intro t ht
    rw [Token.isWord, Bool.and_eq_false_imp, beq_iff_eq, beq_eq_false_iff_ne]
    intro hidentifier hword
    have hknown := hopened.isKnown t.terminal (List.mem_map_of_mem ht) hidentifier
    exact hunknown (hword ▸ hknown)
  · cases before with
    | nil => exact ⟨.start, rfl⟩
    | cons first rest =>
      obtain ⟨state, hfirst, -⟩ := State.exists_read hread
      have hnot : first.isSymbol .at = false := by simpa [Token.isSymbol] using hsign first rfl
      refine ⟨state, ?_⟩
      rw [State.read] at hfirst ⊢
      rw [State.next, hnot]
      exact hfirst
  · intro after
    rw [Grammar.run_start_of_not_at (hsign' after), List.append_cons, State.run_append hread]
    exact exists_blames_of_not_known hunknown after

/-- After the sign of a trigger only its name can be undefined. -/
theorem exists_stops_of_trigger {sign : Token} {tokens : List Token}
    (hat : sign.kind = .symbol .at)
    (h : State.triggerSign.run scope tokens = .error (.undefined name)) :
  ∃ after, tokens = name :: after ∧ Stops scope [sign] name
  := by
  cases tokens with
  | nil => cases h
  | cons word after =>
    rw [State.run, State.next] at h
    split at h
    · rename_i hkind
      split at h
      · cases after <;> cases h
      · rename_i hunknown
        cases h
        refine ⟨after, rfl, hkind, ?_, ⟨.triggerSign, ?_⟩, fun rest => ⟨_, ?_, .undefined⟩⟩
        · rw [List.forall_mem_singleton, Token.isWord, hat]
          rfl
        · simp [State.read, State.next, Token.isSymbol, hat, Except.bind]
        · rw [List.singleton_append, Grammar.run_start_of_at hat, State.run, State.next,
            if_pos hkind, if_neg hunknown]
          rfl
    · cases h

/-- A line that is refused for an undefined name is read up to that name. -/
theorem exists_stops_of_run {tokens : List Token}
    (h : State.start.run scope tokens = .error (.undefined name)) :
  ∃ before after, tokens = before ++ name :: after ∧ Stops scope before name
  := by
  by_cases hsign : ∀ t ∈ tokens.head?, t.kind ≠ .symbol .at
  · rw [Grammar.run_start_of_not_at hsign] at h
    cases refused_of_run h with
    | @token before after token state htokens hread hrefused =>
      obtain ⟨stack, rfl, hunknown⟩ :=
        of_next_eq_undefined (Grammar.within_of_read hread) hrefused
      have hsign' : ∀ t ∈ before.head?, t.kind ≠ .symbol .at := by
        intro t ht
        apply hsign
        rw [htokens, List.head?_append, Option.mem_def.mp ht]
        rfl
      obtain ⟨earlier, rfl, hstops⟩ := exists_stops_of_name hsign' hread hunknown
      exact ⟨earlier, token :: after, by simp [htokens], hstops⟩
    | atEnd hread hrefused =>
      obtain ⟨stack, rfl, hunknown⟩ :=
        of_finish_eq_undefined (Grammar.within_of_read hread) hrefused
      obtain ⟨earlier, rfl, hstops⟩ := exists_stops_of_name hsign hread hunknown
      exact ⟨earlier, [], rfl, hstops⟩
  · obtain ⟨sign, hhead, hat⟩ : ∃ sign ∈ tokens.head?, sign.kind = .symbol .at := by
      simpa using hsign
    obtain ⟨rest, rfl⟩ := List.head?_eq_some_iff.mp hhead
    rw [Grammar.run_start_of_at hat] at h
    obtain ⟨after, rfl, hstops⟩ := exists_stops_of_trigger hat h
    exact ⟨[sign], after, rfl, hstops⟩

end Parse

/-! ### What is found -/

/-- The first significant token with a word is found. -/
theorem findIdentifier?_eq_some {source : List Char} {before after : List Token} {name : Token}
    (htokens : significantTokens source = before ++ name :: after)
    (hkind : name.kind = .identifier) (hothers : ∀ t ∈ before, t.isWord name.word = false) :
  findIdentifier? source name.word = some name
  := by
  have hsignificant : ∀ t : Token,
      (t.kind.isSignificant && t.isWord name.word) = t.isWord name.word := by
    intro t
    rw [Bool.and_eq_right_iff_imp, Token.isWord, Bool.and_eq_true, beq_iff_eq]
    rintro ⟨hidentifier, -⟩
    rw [hidentifier]
    rfl
  have hself : name.isWord name.word = true := by simp [Token.isWord, hkind]
  have hfiltered : findIdentifier? source name.word
      = (significantTokens source).find? (·.isWord name.word) := by
    simp [findIdentifier?, significantTokens, List.find?_filter, hsignificant]
  rw [hfiltered, htokens, List.find?_append, List.find?_eq_none.mpr (by simpa using hothers),
    Option.none_or]
  exact List.find?_cons_of_pos hself

/-- The name is where the text is refused, the first token with its word, and what is reported
of the text. -/
structure Parse.Pinpoints (scope : Parse.Scope) (source : List Char) (name : Token) : Prop where
  stops : ∃ before after, significantTokens source = before ++ name :: after
    ∧ Parse.Stops scope before name
  found : findIdentifier? source name.word = some name
  reported : ∀ context expected, evaluateSource (.ofScope scope) context source expected
    = ⟨none, [.saying .undefinedName (name.region source) (Parse.undefinedMessage name.word)]⟩

/-- The name that a text is refused for is the one that is found and reported. -/
theorem pinpoints_of_parseLine {scope : Parse.Scope} {source : List Char} {name : Token}
    (h : parseLine scope source = .error (.undefined name)) :
  Parse.Pinpoints scope source name
  := by
  obtain ⟨before, after, htokens, hstops⟩ := Parse.exists_stops_of_run h
  have hfound := findIdentifier?_eq_some htokens hstops.kind hstops.others
  refine ⟨⟨before, after, htokens, hstops⟩, hfound, ?_⟩
  intro context expected
  rw [evaluateSource]
  simp [Toolkit.ofScope, h, Except.mapError, Parse.Failure.rejection, Rejection.diagnostic,
    hfound]

/-- A name that is in a string and in a comment as well. -/
def ghosts : List Char :=
  "concat(\"ghost\", ghost) + ghost // ghost".toList

/-- The name outside the string is found. -/
theorem pinpoints_of_parseLine_ghosts :
  parseLine {} ghosts = .error (.undefined ⟨.identifier, 16, "ghost".toList, {}, 0⟩)
    ∧ Parse.Pinpoints {} ghosts ⟨.identifier, 16, "ghost".toList, {}, 0⟩
  := by
  have htokens : significantTokens ghosts
      = [⟨.identifier, 0, "concat".toList, {}, 0⟩, ⟨.symbol .openParen, 6, ['('], {}, 0⟩,
        ⟨.string, 7, "\"ghost\"".toList, ⟨false, true, false, false⟩, 0⟩,
        ⟨.symbol .comma, 14, [','], {}, 0⟩, ⟨.identifier, 16, "ghost".toList, {}, 0⟩,
        ⟨.symbol .closeParen, 21, [')'], {}, 0⟩, ⟨.symbol .plus, 23, ['+'], {}, 0⟩,
        ⟨.identifier, 25, "ghost".toList, {}, 0⟩] := by
    decide +kernel
  have hrefused : parseLine {} ghosts
      = .error (.undefined ⟨.identifier, 16, "ghost".toList, {}, 0⟩) := by
    rw [parseLine, htokens]
    rfl
  exact ⟨hrefused, pinpoints_of_parseLine hrefused⟩

end TriggerLang
