import Mathlib.Tactic.Common
import TriggerLang.Parse.Line

/-!
# What failures are about

A line is refused at one of its tokens or at its end, and a name that is not known is one of
its identifiers.  While a line is read only a name is kept to be refused later, so the
invariant of the reading is that this name is one of the tokens.
-/

namespace TriggerLang.Parse

/-- The failure is about one of the tokens, or about the end of them. -/
inductive Failure.IsAbout (tokens : List Token) : Failure → Prop
  | unexpected {token : Token} (h : token ∈ tokens) (expected : List Expectation) :
      IsAbout tokens (.unexpected (some token) expected)
  | incomplete (expected : List Expectation) : IsAbout tokens (.unexpected none expected)
  | undefined {name : Token} (h : name ∈ tokens) (hkind : name.kind = .identifier) :
      IsAbout tokens (.undefined name)

/-- The name that the state keeps is an identifier among the tokens. -/
def State.Keeps (tokens : List Token) : State → Prop
  | .name _ head => head ∈ tokens ∧ head.kind = .identifier
  | _ => True

/-- What comes of a step keeps a name of the tokens, or it is a failure about them. -/
def KeepsOrFails (tokens : List Token) : Except Failure State → Prop
  | .ok state => state.Keeps tokens
  | .error failure => failure.IsAbout tokens

variable {tokens : List Token} {scope : Scope}

theorem readOperand_keepsOrFails {token : Token} (h : token ∈ tokens) (stack : List Frame) :
  KeepsOrFails tokens (readOperand stack token)
  := by
  rw [readOperand]
  split
  · trivial
  · trivial
  · split
    · exact .incomplete _
    · trivial
  · trivial
  · trivial
  · rename_i hkind
    split
    · trivial
    split
    · trivial
    split
    · exact .unexpected h _
    · exact ⟨h, hkind⟩
  · exact .unexpected h _

theorem afterOperand_keepsOrFails {token : Token} (h : token ∈ tokens) (catalog : Catalog)
    (stack : List Frame) (value : Fragment) :
  KeepsOrFails tokens (afterOperand catalog stack value token)
  := by
  have hrefused : (Failure.unexpected (some token) (expectedAfter stack)).IsAbout tokens :=
    .unexpected h _
  simp only [afterOperand]
  split
  · split
    · exact hrefused
    · trivial
  · split
    · split
      · trivial
      · exact hrefused
    · split
      · trivial
      · exact hrefused
    · split
      · trivial
      · exact hrefused
    · exact hrefused

theorem openCall_keepsOrFails {head : Token} (h : head ∈ tokens) (catalog : Catalog)
    (stack : List Frame) :
  KeepsOrFails tokens (openCall catalog stack head)
  := by
  rw [openCall]
  split
  · exact .unexpected h _
  · split <;> trivial

/-- A name that stands for nothing is refused at the name or at what follows it. -/
theorem isAbout_of_resolveName {head : Token} {following : Option Token} {failure : Failure}
    (hhead : head ∈ tokens ∧ head.kind = .identifier) (hfollowing : ∀ t ∈ following, t ∈ tokens)
    (h : resolveName scope head following = .error failure) :
  failure.IsAbout tokens
  := by
  rw [resolveName] at h
  split at h
  · split at h
    · cases h
    · cases h
      cases following with
      | none => exact .incomplete _
      | some token => exact .unexpected (hfollowing token rfl) _
  · split at h
    · cases h
    · cases h
      exact .undefined hhead.1 hhead.2

/-- Every token keeps a name of the tokens, or the line is refused at one of them. -/
theorem next_keepsOrFails {state : State} (hstate : state.Keeps tokens) {token : Token}
    (h : token ∈ tokens) :
  KeepsOrFails tokens (state.next scope token)
  := by
  cases state with
  | start =>
    rw [State.next]
    split
    · trivial
    · exact readOperand_keepsOrFails h []
  | triggerSign =>
    rw [State.next]
    split
    · rename_i hkind
      split
      · trivial
      · exact .undefined h hkind
    · exact .unexpected h _
  | trigger word => exact .unexpected h _
  | operand stack => exact readOperand_keepsOrFails h stack
  | name stack head =>
    rw [State.next]
    split
    · exact openCall_keepsOrFails hstate.1 _ stack
    · cases hvalue : resolveName scope head (some token) with
      | ok value => exact afterOperand_keepsOrFails h _ stack value
      | error failure =>
        refine isAbout_of_resolveName hstate ?_ hvalue
        rintro t ⟨⟩
        exact h
  | emptyCall stack signature =>
    rw [State.next]
    split
    · trivial
    · exact .unexpected h _
  | operator stack value => exact afterOperand_keepsOrFails h _ stack value

/-- A line that ends too early is refused at its end, or for the name before it. -/
theorem isAbout_of_finish {state : State} (hstate : state.Keeps tokens) {failure : Failure}
    (h : state.finish scope = .error failure) :
  failure.IsAbout tokens
  := by
  have hend : ∀ {stack : List Frame} {value : Fragment},
      endAfterOperand scope.catalog stack value = .error failure → failure.IsAbout tokens := by
    intro stack value h
    rw [endAfterOperand] at h
    split at h
    · cases h
    · cases h
      exact .incomplete _
  cases state with
  | start => cases h; exact .incomplete _
  | triggerSign => cases h; exact .incomplete _
  | trigger word => cases h
  | operand stack => cases h; exact .incomplete _
  | emptyCall stack signature => cases h; exact .incomplete _
  | operator stack value => exact hend h
  | name stack head =>
    rw [State.finish] at h
    cases hvalue : resolveName scope head none with
    | ok value =>
      rw [hvalue] at h
      exact hend h
    | error failure' =>
      rw [hvalue] at h
      cases h
      exact isAbout_of_resolveName hstate (by simp) hvalue

theorem isAbout_of_run {state : State} (hstate : state.Keeps tokens) {remaining : List Token}
    (hremaining : ∀ token ∈ remaining, token ∈ tokens) {failure : Failure}
    (h : state.run scope remaining = .error failure) :
  failure.IsAbout tokens
  := by
  induction remaining generalizing state with
  | nil => exact isAbout_of_finish hstate h
  | cons token rest ih =>
    obtain ⟨htoken, hrest⟩ := List.forall_mem_cons.mp hremaining
    have hnext : KeepsOrFails tokens (state.next scope token) := next_keepsOrFails hstate htoken
    rw [State.run] at h
    cases hresult : state.next scope token with
    | ok state' =>
      rw [hresult] at h hnext
      exact ih hnext hrest h
    | error failure' =>
      rw [hresult] at h hnext
      cases h
      exact hnext

end TriggerLang.Parse

namespace TriggerLang

/-- A text is refused at one of the tokens that mean something, or at its end. -/
theorem isAbout_of_parseLine {scope : Parse.Scope} {source : List Char}
    {failure : Parse.Failure} (h : parseLine scope source = .error failure) :
  failure.IsAbout (significantTokens source)
  := by
  have hstart : Parse.State.start.Keeps (significantTokens source) := trivial
  exact Parse.isAbout_of_run hstart (fun _ htoken => htoken) h

end TriggerLang
