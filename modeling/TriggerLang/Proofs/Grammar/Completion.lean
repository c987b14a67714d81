import TriggerLang.Proofs.Grammar.Soundness
import TriggerLang.Proofs.Lexing.Break

/-!
# Lines that can be completed

What has been read of an expression can be completed: an operand is supplied where one must
follow, and then the remaining arguments of each open call and the brackets that are open.
Within an expression every token leads to a state that stays within it, and a name that is kept
is the last token read.
-/

namespace TriggerLang.Grammar

open Parse

variable {scope : Scope}

/-- The terminals are the first ones of a line that is accepted: a text can follow them. -/
def Completable (scope : Scope) (ts : List Terminal) : Prop :=
  ∃ out f, DerivesLine scope f (ts ++ meaning [] out)

/-! ### Closing what is open -/

/-- The number of brackets and commas that must follow an operand. -/
def due : List Frame → Nat
  | [] => 0
  | .binary _ _ :: stack => due stack
  | .negative :: stack => due stack
  | .group :: stack => due stack + 1
  | .argument _ _ remaining :: stack => due stack + (remaining.length + 1)

/-- Closing frames without brackets leaves what is due. -/
theorem due_settle (catalog : Catalog) (level : Nat) (stack : List Frame) (f : Fragment) :
  due (settle catalog level stack f).1 = due stack
  := by
  fun_induction settle catalog level stack f with
  | case1 stack f ih => exact ih
  | case2 op left stack f hle ih => exact ih
  | case3 => rfl
  | case4 => rfl

/-- The terminal of the digit that is supplied for an operand. -/
def one : Terminal :=
  ⟨.integer, ['1'], false⟩

theorem derives_one :
  Derives scope (.value .primary (.integer 1)) [one]
  := @Derives.integer _ one rfl

theorem meaning_one_append {out : List Char} (h : Delimited out) :
  meaning [] ('1' :: out) = one :: meaning [] out
  := by
  have hone : Means [] ['1'] [one] := Means.integer (by simp) (List.forall_mem_singleton.mpr rfl)
  exact hone out h

theorem meaning_closeParen_cons (out : List Char) :
  meaning [] (')' :: out) = .ofSymbol .closeParen :: meaning [] out
  := meaning_symbol (s := .closeParen) rfl out

/-- An operand that is followed by the brackets and the arguments that are due makes a line. -/
theorem exists_derivesLine {stack : List Frame} {f : Fragment} {ts us : List Terminal}
    (hstack : Opened scope stack ts) (hf : Derives scope (.value .primary f) us) :
  ∃ out g, Delimited out ∧ DerivesLine scope g (ts ++ us ++ meaning [] out)
  := by
  induction hdue : due stack using Nat.strongRecOn generalizing stack f ts us with
  | ind n ih =>
    obtain ⟨level, ts', us', hstack', hf', -, hadmits, happend⟩ :=
      settle_sound 0 hstack hf
        (accepts_of_six_le .primary (by decide) stack) (by decide) (by decide)
    have hexpression : Derives scope (.value .expression _) us' :=
      .loosen (by cases level <;> decide) hf'
    have hsettled := due_settle scope.catalog 0 stack f
    rw [← happend]
    generalize (settle scope.catalog 0 stack f).1 = settled at hstack' hadmits hsettled
    generalize (settle scope.catalog 0 stack f).2 = value at hexpression
    -- after a closing bracket the operand that it makes is followed by what is due then
    have hclosed : ∀ {rest : List Frame} {g : Fragment}, due rest < n →
        Explains scope (.operator rest g) (ts' ++ us' ++ [.ofSymbol .closeParen]) →
        ∃ out line, Delimited out ∧ DerivesLine scope line (ts' ++ us' ++ meaning [] out) := by
      rintro rest g hlt ⟨us, vs, hrest, hvs, heq⟩
      obtain ⟨out, line, -, hline⟩ := ih _ hlt hrest hvs rfl
      refine ⟨')' :: out, line, .closeParen out, ?_⟩
      rwa [meaning_closeParen_cons, ← List.singleton_append, ← List.append_assoc, heq]
    match settled, hadmits with
    | [], _ =>
      cases hstack'
      have hnil : meaning [] [] = [] := by simp [meaning, substituteAll]
      refine ⟨[], value, .nil, ?_⟩
      rw [hnil, List.append_nil]
      exact .expression hexpression
    | .binary _ _ :: _, hadmits => exact absurd hadmits (Nat.not_lt_zero _)
    | .negative :: _, hadmits => exact hadmits.elim
    | .group :: rest, _ =>
      apply hclosed _ (hstack'.close_group hexpression rfl)
      simp only [due] at hsettled
      omega
    | .argument fields parameter [] :: rest, _ =>
      apply hclosed _ (hstack'.close_call hexpression rfl)
      simp only [due] at hsettled
      omega
    | .argument fields parameter (next :: remaining) :: rest, _ =>
      have hnext := hstack'.next_argument (t := .ofSymbol .comma) hexpression rfl
      have hlt :
          due (.argument (addArgument fields parameter value) next remaining :: rest) < n := by
        simp only [due, List.length_cons] at hsettled ⊢
        omega
      obtain ⟨out, line, hout, hline⟩ := ih _ hlt hnext derives_one rfl
      have hcomma : meaning [] (',' :: '1' :: out) = .ofSymbol .comma :: one :: meaning [] out := by
        rw [← meaning_one_append hout]
        exact meaning_symbol (s := .comma) rfl ('1' :: out)
      refine ⟨',' :: '1' :: out, line, .comma _, ?_⟩
      rw [hcomma]
      simpa using hline

/-- What is read up to the end of an operand can be completed. -/
theorem completable_of_operand {stack : List Frame} {f : Fragment} {ts us : List Terminal}
    (hstack : Opened scope stack ts) (hf : Derives scope (.value .primary f) us) :
  Completable scope (ts ++ us)
  := by
  obtain ⟨out, g, -, hline⟩ := exists_derivesLine hstack hf
  exact ⟨out, g, hline⟩

/-- What is read up to a place where an operand must follow can be completed. -/
theorem completable_of_opened {stack : List Frame} {ts : List Terminal}
    (hstack : Opened scope stack ts) :
  Completable scope ts
  := by
  obtain ⟨out, g, hout, hline⟩ := exists_derivesLine hstack derives_one
  refine ⟨'1' :: out, g, ?_⟩
  rwa [meaning_one_append hout, ← List.singleton_append, ← List.append_assoc]

/-! ### States within an expression -/

/-- The state is one within an expression, and a name that it keeps is the last token read. -/
def EndsIn (read : List Token) : State → Prop
  | .start | .triggerSign | .trigger _ => False
  | .name _ head => read.getLast? = some head
  | _ => True

/-- The state has been reached within an expression by reading the tokens. -/
structure Within (scope : Scope) (state : State) (read : List Token) : Prop where
  explains : Explains scope state (read.map Token.terminal)
  endsIn : EndsIn read state

variable {read : List Token} {token : Token}

theorem endsIn_readOperand {stack : List Frame} {state : State}
    (h : readOperand stack token = .ok state) :
  EndsIn (read ++ [token]) state
  := by
  rw [readOperand] at h
  split at h
  case h_3 =>
    split at h <;> cases h
    trivial
  case h_6 =>
    split at h
    · cases h
      trivial
    split at h
    · cases h
      trivial
    split at h <;> cases h
    exact List.getLast?_concat
  case h_7 => cases h
  all_goals
    cases h
    trivial

theorem endsIn_afterOperand {catalog : Catalog} {stack : List Frame} {f : Fragment}
    {state : State} (h : afterOperand catalog stack f token = .ok state) :
  EndsIn (read ++ [token]) state
  := by
  simp only [afterOperand] at h
  split at h
  · split at h <;> cases h
    trivial
  · split at h
    · split at h <;> cases h
      trivial
    · split at h <;> cases h
      trivial
    · split at h <;> cases h
      trivial
    · cases h

theorem endsIn_openCall {catalog : Catalog} {stack : List Frame} {head : Token} {state : State}
    (h : openCall catalog stack head = .ok state) :
  EndsIn (read ++ [token]) state
  := by
  rw [openCall] at h
  split at h
  · cases h
  · split at h <;> cases h <;> trivial

/-- A token within an expression stays within it. -/
theorem Within.next {state state' : State} (hstate : Within scope state read)
    (h : state.next scope token = .ok state') :
  Within scope state' (read ++ [token])
  := by
  constructor
  · rw [List.map_append]
    exact explains_next hstate.explains h
  · cases state with
    | start => exact hstate.endsIn.elim
    | triggerSign => exact hstate.endsIn.elim
    | trigger word => exact hstate.endsIn.elim
    | operand stack => exact endsIn_readOperand h
    | name stack head =>
      rw [State.next] at h
      split at h
      · exact endsIn_openCall h
      · cases hvalue : resolveName scope head (some token) with
        | ok value =>
          rw [hvalue] at h
          exact endsIn_afterOperand h
        | error failure =>
          rw [hvalue] at h
          cases h
    | emptyCall stack signature =>
      rw [State.next] at h
      split at h <;> cases h
      trivial
    | operator stack f => exact endsIn_afterOperand h

/-- What the tokens before a kept name open, and what the name is. -/
theorem Within.exists_opened {stack : List Frame} {head : Token}
    (h : Within scope (.name stack head) read) :
  ∃ before, read = before ++ [head] ∧ Opened scope stack (before.map Token.terminal)
    ∧ head.kind = .identifier ∧ ¬ isKeyword head.word
  := by
  obtain ⟨us, hstack, hkind, hword, hread⟩ := h.explains
  obtain ⟨before, rfl⟩ := List.getLast?_eq_some_iff.mp h.endsIn
  rw [List.map_append] at hread
  obtain ⟨rfl, -⟩ := List.append_inj' hread rfl
  exact ⟨before, rfl, hstack, hkind, hword⟩

/-! ### Refusals -/

theorem eq_of_afterOperand_eq_error {catalog : Catalog} {stack : List Frame} {f : Fragment}
    {failure : Failure} (h : afterOperand catalog stack f token = .error failure) :
  failure = .unexpected (some token) (expectedAfter stack)
  := by
  simp only [afterOperand] at h
  split at h
  · split at h <;> cases h
    rfl
  · split at h
    · split at h <;> cases h
      rfl
    · split at h <;> cases h
      rfl
    · split at h <;> cases h
      rfl
    · cases h
      rfl

theorem eq_of_endAfterOperand_eq_error {catalog : Catalog} {stack : List Frame} {f : Fragment}
    {failure : Failure} (h : endAfterOperand catalog stack f = .error failure) :
  failure = .unexpected none (expectedAfter stack)
  := by
  rw [endAfterOperand] at h
  split at h <;> cases h
  rfl

/-- A line without the sign of a trigger is read as an expression. -/
theorem run_start_of_not_at {tokens : List Token}
    (h : ∀ token ∈ tokens.head?, token.kind ≠ .symbol .at) :
  State.start.run scope tokens = (State.operand []).run scope tokens
  := by
  cases tokens with
  | nil => rfl
  | cons token rest =>
    have hsign : token.isSymbol .at = false := by simpa [Token.isSymbol] using h token rfl
    rw [State.run, State.run, State.next, State.next, hsign]
    rfl

/-- A line that starts with the sign of a trigger goes on with its name. -/
theorem run_start_of_at {sign : Token} (hsign : sign.kind = .symbol .at) (tokens : List Token) :
  State.start.run scope (sign :: tokens) = State.triggerSign.run scope tokens
  := by
  have hnext : State.start.next scope sign = .ok .triggerSign := by
    simp [State.next, Token.isSymbol, hsign]
  rw [State.run, hnext]
  rfl

/-! ### Terminals of lines that can be completed -/

theorem isWhole_of_kind_eq {t : Terminal} {kind : TokenKind} (h : t.kind = kind)
    (hskipped : kind ≠ .skipped) (hstring : kind ≠ .string) :
  t.IsWhole
  := by
  subst h
  exact ⟨hskipped, fun hkind => absurd hkind hstring⟩

theorem isWhole_of_operator? {t : Terminal} {op : Operator} (h : t.operator? = some op) :
  t.IsWhole
  := by
  rw [Terminal.operator?] at h
  split at h
  · rename_i hkind
    exact isWhole_of_kind_eq hkind (by simp) (by simp)
  · rename_i hkind
    exact isWhole_of_kind_eq hkind (by simp) (by simp)
  · cases h

/-- What stands for a phrase has no skipped characters and no strings without closing quotes. -/
theorem Derives.isWhole {phrase : Phrase} {ts : List Terminal} (h : Derives scope phrase ts) :
  ∀ t ∈ ts, t.IsWhole
  := by
  have hsingle : ∀ {t : Terminal} {kind : TokenKind}, t.kind = kind → kind ≠ .skipped →
      kind ≠ .string → ∀ u ∈ [t], u.IsWhole :=
    fun hkind hskipped hstring =>
      List.forall_mem_singleton.mpr (isWhole_of_kind_eq hkind hskipped hstring)
  induction h with
  | loosen hle h ih => exact ih
  | binary hop hleft hright ihleft ihright =>
    rw [List.forall_mem_append, List.forall_mem_cons]
    exact ⟨ihleft, isWhole_of_operator? hop, ihright⟩
  | negative hminus h ih =>
    exact List.forall_mem_cons.mpr ⟨isWhole_of_kind_eq hminus nofun nofun, ih⟩
  | integer hkind => exact hsingle hkind nofun nofun
  | float hkind => exact hsingle hkind nofun nofun
  | @string t hkind hclosed =>
    exact List.forall_mem_singleton.mpr ⟨by simp [hkind], fun _ => hclosed⟩
  | trueWord hkind hword => exact hsingle hkind nofun nofun
  | falseWord hkind hword => exact hsingle hkind nofun nofun
  | group hopen hclose h ih =>
    rw [List.forall_mem_append, List.forall_mem_cons]
    exact ⟨⟨isWhole_of_kind_eq hopen nofun nofun, ih⟩, hsingle hclose nofun nofun⟩
  | call hname hword hfunction harity hopen hclose h ih =>
    rw [List.forall_mem_append, List.forall_mem_cons, List.forall_mem_cons]
    exact ⟨⟨isWhole_of_kind_eq hname nofun nofun, isWhole_of_kind_eq hopen nofun nofun, ih⟩,
      hsingle hclose nofun nofun⟩
  | emptyCall hname hword hfunction harity hopen hclose =>
    rw [List.forall_mem_cons, List.forall_mem_cons]
    exact ⟨isWhole_of_kind_eq hname nofun nofun, isWhole_of_kind_eq hopen nofun nofun,
      hsingle hclose nofun nofun⟩
  | constant hname => exact hsingle hname nofun nofun
  | declared hname => exact hsingle hname nofun nofun
  | first h ih => exact ih
  | further hcomma h hlast ih ihlast =>
    rw [List.forall_mem_append, List.forall_mem_cons]
    exact ⟨ih, isWhole_of_kind_eq hcomma nofun nofun, ihlast⟩

theorem DerivesLine.isWhole {f : Fragment} {ts : List Terminal} (h : DerivesLine scope f ts) :
  ∀ t ∈ ts, t.IsWhole
  := by
  cases h with
  | trigger hsign hname =>
    rw [List.forall_mem_cons, List.forall_mem_singleton]
    exact ⟨isWhole_of_kind_eq hsign nofun nofun, isWhole_of_kind_eq hname nofun nofun⟩
  | expression h => exact h.isWhole

theorem Completable.isWhole {ts : List Terminal} (h : Completable scope ts) :
  ∀ t ∈ ts, t.IsWhole
  := by
  obtain ⟨out, f, hline⟩ := h
  exact (List.forall_mem_append.mp hline.isWhole).1

end TriggerLang.Grammar
