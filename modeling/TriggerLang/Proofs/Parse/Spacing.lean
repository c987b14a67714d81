import TriggerLang.Parse.Line
import TriggerLang.Proofs.Lexing.Seam

/-!
# Spaces and comments in lines

The parser looks at the kinds and the texts of tokens and at nothing else: it does the same with
tokens whose places have been taken away, up to the places of the tokens that it keeps.  So what
becomes of a line, apart from places, depends on its significant terminals alone, and neither
white space between tokens nor a comment behind them changes it.
-/

namespace TriggerLang

/-- The token without what it has from its place in the text. -/
def Token.unplaced (t : Token) : Token :=
  { kind := t.kind, start := 0, text := t.text, flags := { unterminated := t.flags.unterminated } }

namespace Token

@[simp]
theorem unplaced_kind (t : Token) :
  t.unplaced.kind = t.kind
  := rfl

@[simp]
theorem unplaced_text (t : Token) :
  t.unplaced.text = t.text
  := rfl

@[simp]
theorem unplaced_unterminated (t : Token) :
  t.unplaced.flags.unterminated = t.flags.unterminated
  := rfl

@[simp]
theorem unplaced_word (t : Token) :
  t.unplaced.word = t.word
  := rfl

@[simp]
theorem unplaced_isSymbol (t : Token) (s : Symbol) :
  t.unplaced.isSymbol s = t.isSymbol s
  := rfl

@[simp]
theorem unplaced_operator? (t : Token) :
  Operator.ofToken? t.unplaced = Operator.ofToken? t
  := rfl

/-- Tokens are spelled alike if they are the same without their places. -/
theorem word_of_unplaced_eq {t u : Token} (h : t.unplaced = u.unplaced) :
  t.word = u.word
  := by
  rw [← unplaced_word t, h, unplaced_word]

/-- Tokens without places are the same if their terminals are. -/
theorem map_unplaced_congr {ts us : List Token}
    (h : ts.map terminal = us.map terminal) :
  ts.map unplaced = us.map unplaced
  := by
  let placeless (t : Terminal) : Token :=
    { kind := t.kind, start := 0, text := t.text, flags := { unterminated := t.unterminated } }
  have hfactor : unplaced = placeless ∘ terminal := rfl
  rw [hfactor, ← List.map_map, ← List.map_map, h]

end Token

namespace Parse

/-- The failure with tokens without places. -/
def Failure.unplaced : Failure → Failure
  | .unexpected token expected => .unexpected (token.map Token.unplaced) expected
  | .undefined name => .undefined name.unplaced

/-- The state with the name that it keeps without its place. -/
def State.unplaced : State → State
  | .name stack head => .name stack head.unplaced
  | state => state

/-- What a step comes to, without places. -/
def unplacedStep : Except Failure State → Except Failure State
  | .ok state => .ok state.unplaced
  | .error failure => .error failure.unplaced

/-- What a line comes to, without places. -/
def unplacedResult : Except Failure Fragment → Except Failure Fragment
  | .ok f => .ok f
  | .error failure => .error failure.unplaced

/-! ### Steps -/

theorem readOperand_unplaced (stack : List Frame) (t : Token) :
  readOperand stack t.unplaced = unplacedStep (readOperand stack t)
  := by
  simp only [readOperand, Token.unplaced_kind, Token.unplaced_text, Token.unplaced_word,
    Token.unplaced_unterminated]
  split
  · rfl
  · rfl
  · rw [apply_ite unplacedStep]
    rfl
  · rfl
  · rfl
  · simp only [apply_ite unplacedStep]
    rfl
  · rfl

theorem afterOperand_unplaced (catalog : Catalog) (stack : List Frame) (value : Fragment)
    (t : Token) :
  afterOperand catalog stack value t.unplaced = unplacedStep (afterOperand catalog stack value t)
  := by
  simp only [afterOperand, Token.unplaced_operator?, Token.unplaced_isSymbol]
  split
  · rw [apply_ite unplacedStep]
    rfl
  · split
    · rw [apply_ite unplacedStep]
      rfl
    · rw [apply_ite unplacedStep]
      rfl
    · rw [apply_ite unplacedStep]
      rfl
    · rfl

theorem resolveName_unplaced (scope : Scope) (name : Token) (following : Option Token) :
  resolveName scope name.unplaced (following.map Token.unplaced)
    = unplacedResult (resolveName scope name following)
  := by
  simp only [resolveName, Token.unplaced_word]
  split
  · rw [apply_ite unplacedResult]
    rfl
  · split
    · rfl
    · rfl

theorem openCall_unplaced (catalog : Catalog) (stack : List Frame) (name : Token) :
  openCall catalog stack name.unplaced = unplacedStep (openCall catalog stack name)
  := by
  simp only [openCall, Token.unplaced_word]
  split
  · rfl
  · split
    · rfl
    · rfl

theorem endAfterOperand_unplaced (catalog : Catalog) (stack : List Frame) (value : Fragment) :
  unplacedResult (endAfterOperand catalog stack value) = endAfterOperand catalog stack value
  := by
  rw [endAfterOperand]
  split
  · rfl
  · rfl

namespace State

/-- Reading a token does not depend on places. -/
theorem next_unplaced (scope : Scope) (state : State) (t : Token) :
  state.unplaced.next scope t.unplaced = unplacedStep (state.next scope t)
  := by
  cases state with
  | start =>
    simp only [unplaced, next, Token.unplaced_isSymbol, readOperand_unplaced]
    rw [apply_ite unplacedStep]
    rfl
  | triggerSign =>
    simp only [unplaced, next, Token.unplaced_kind, Token.unplaced_word, apply_ite unplacedStep]
    rfl
  | trigger name => rfl
  | operand stack => exact readOperand_unplaced stack t
  | name stack head =>
    have hresolve := resolveName_unplaced scope head (some t)
    rw [Option.map_some] at hresolve
    simp only [unplaced, next, Token.unplaced_isSymbol, openCall_unplaced, hresolve]
    rw [apply_ite unplacedStep]
    cases resolveName scope head (some t) with
    | error failure => rfl
    | ok value =>
      have hafter := afterOperand_unplaced scope.catalog stack value t
      simp only [unplacedResult, Except.bind, hafter]
  | emptyCall stack signature =>
    simp only [unplaced, next, Token.unplaced_isSymbol, apply_ite unplacedStep]
    rfl
  | operator stack value => exact afterOperand_unplaced scope.catalog stack value t

/-- The end of a line does not depend on places. -/
theorem finish_unplaced (scope : Scope) (state : State) :
  state.unplaced.finish scope = unplacedResult (state.finish scope)
  := by
  cases state with
  | start => rfl
  | triggerSign => rfl
  | trigger word => rfl
  | operand stack => rfl
  | name stack head =>
    have hresolve := resolveName_unplaced scope head none
    rw [Option.map_none] at hresolve
    simp only [unplaced, finish, hresolve]
    cases resolveName scope head none with
    | error failure => rfl
    | ok value => exact (endAfterOperand_unplaced scope.catalog stack value).symm
  | emptyCall stack signature => rfl
  | operator stack value => exact (endAfterOperand_unplaced scope.catalog stack value).symm

/-- What tokens come to does not depend on their places. -/
theorem run_unplaced (scope : Scope) (state : State) (tokens : List Token) :
  state.unplaced.run scope (tokens.map Token.unplaced)
    = unplacedResult (state.run scope tokens)
  := by
  induction tokens generalizing state with
  | nil => exact finish_unplaced scope state
  | cons t tokens ih =>
    rw [List.map_cons, run, run, next_unplaced]
    cases state.next scope t with
    | error failure => rfl
    | ok state' => exact ih state'

end State

end Parse

/-! ### Verdicts -/

/-- What becomes of a line, apart from places. -/
inductive Verdict where
  /-- The line stands for the fragment. -/
  | accepted (f : Fragment)
  /-- A token, or the end of the line, cannot stand in its place. -/
  | unexpected (message got : String) (expected : List String) (recoverable : Bool)
  /-- A name is not known. -/
  | undefined (message name : String)

/-- What becomes of the line. -/
def verdict (scope : Parse.Scope) (source : List Char) : Verdict :=
  match parseLine scope source with
  | .ok f => .accepted f
  | .error (.unexpected token expected) =>
    let e := Parse.Unexpected.of source token expected
    .unexpected e.message e.got e.expected e.recoverable
  | .error (.undefined name) => .undefined (Parse.undefinedMessage name.word) name.word

variable {scope : Parse.Scope} {source out : List Char}

/-- Of an unexpected token only its word is told. -/
theorem unexpected_of_unplaced {token token' : Option Token}
    (h : token.map Token.unplaced = token'.map Token.unplaced)
    (expected : List Parse.Expectation) :
  (Parse.Unexpected.of out token expected).message
      = (Parse.Unexpected.of source token' expected).message
    ∧ (Parse.Unexpected.of out token expected).got
      = (Parse.Unexpected.of source token' expected).got
    ∧ (Parse.Unexpected.of out token expected).recoverable
      = (Parse.Unexpected.of source token' expected).recoverable
  := by
  have hword : token.map Token.word = token'.map Token.word := by
    have hword := congrArg (Option.map Token.word) h
    rwa [Option.map_map, Option.map_map] at hword
  have hnone : token.isNone = token'.isNone := by
    have hnone := congrArg Option.isNone h
    rwa [Option.isNone_map, Option.isNone_map] at hnone
  simp only [Parse.Unexpected.of, Parse.Unexpected.message, hword, hnone, and_self]

/-- What becomes of a line is seen from what the line comes to without places. -/
theorem verdict_of_unplaced
    (h : Parse.unplacedResult (parseLine scope out)
      = Parse.unplacedResult (parseLine scope source)) :
  verdict scope out = verdict scope source
  := by
  rw [verdict, verdict]
  generalize parseLine scope out = first at h
  generalize parseLine scope source = second at h
  cases first with
  | ok f =>
    cases second with
    | ok g =>
      cases h
      rfl
    | error failure => cases h
  | error failure =>
    cases second with
    | ok g => cases h
    | error failure' =>
      have hfailure : failure.unplaced = failure'.unplaced := Except.error.inj h
      cases failure with
      | unexpected token expected =>
        cases failure' with
        | unexpected token' expected' =>
          obtain ⟨htoken, rfl⟩ := Parse.Failure.unexpected.inj hfailure
          obtain ⟨hmessage, hgot, hrecoverable⟩ :=
            @unexpected_of_unplaced source out token token' htoken expected
          exact (Verdict.unexpected.injEq ..).mpr ⟨hmessage, hgot, rfl, hrecoverable⟩
        | undefined name' => cases hfailure
      | undefined name =>
        cases failure' with
        | unexpected token' expected' => cases hfailure
        | undefined name' =>
          have hword := Token.word_of_unplaced_eq (Parse.Failure.undefined.inj hfailure)
          exact congrArg (fun name => Verdict.undefined (Parse.undefinedMessage name) name) hword

/-- What becomes of a line depends on its meaning alone. -/
theorem verdict_of_meaning (h : meaning [] out = meaning [] source) :
  verdict scope out = verdict scope source
  := by
  rw [meaning_nil, meaning_nil] at h
  have hout := Parse.State.run_unplaced scope .start (significantTokens out)
  have hsource := Parse.State.run_unplaced scope .start (significantTokens source)
  rw [Token.map_unplaced_congr h] at hout
  exact verdict_of_unplaced (hout.symm.trans hsource)

/-! ### Lines with gaps -/

/-- White space between two tokens of a line, the first of which is neither a comment nor a
string without a closing quote, changes nothing of what becomes of the line but places; and
neither does a comment behind the line. -/
theorem verdict_eq_of_gap {ts us : List Token} (scope : Parse.Scope)
    (hunbroken : Text.Unbroken source)
    (hcut : properTokens source = ts ++ us)
    (hlast : ∀ t ∈ ts.getLast?, t.kind ≠ .comment ∧ t.flags.unterminated = false) :
  (∀ gap : List Char, (∀ c ∈ gap, c = ' ' ∨ c = '\t') →
      verdict scope (ts.flatMap Token.text ++ (gap ++ us.flatMap Token.text))
        = verdict scope source)
    ∧ (us = [] → ∀ line : List Char, Text.Unbroken line →
      verdict scope (source ++ ' ' :: '/' :: '/' :: line) = verdict scope source)
  := by
  have hterminals : terminals source = ts.map Token.terminal ++ us.map Token.terminal := by
    rw [← map_terminal_properTokens, hcut, List.map_append]
  have htexts : ∀ tokens : List Token,
      tokens.flatMap Token.text = (tokens.map Token.terminal).flatMap Terminal.text := by
    intro tokens
    rw [List.flatMap_map]
    rfl
  have hends : ∀ t ∈ (ts.map Token.terminal).getLast?, t.kind ≠ .comment ∧ t.IsClosed := by
    intro t ht
    rw [List.getLast?_map] at ht
    obtain ⟨token, htoken, rfl⟩ := Option.map_eq_some_iff.mp ht
    obtain ⟨hcomment, hclosed⟩ := hlast token htoken
    exact ⟨hcomment, fun _ => hclosed⟩
  constructor
  · intro gap hgap
    have hspaces : ∀ c ∈ gap, Lexeme.isSpace c = true := by
      intro c hc
      rcases hgap c hc with rfl | rfl <;> rfl
    rw [htexts, htexts]
    exact verdict_of_meaning (meaning_insert_spaces hunbroken hterminals hends hspaces)
  · rintro rfl line hline
    rw [List.map_nil, List.append_nil] at hterminals
    rw [← hterminals] at hends
    exact verdict_of_meaning (meaning_append_comment hunbroken hends hline)

/-- A point behind a number stays a point of its own behind a gap, and a comment behind a string
does not change why the line is refused. -/
theorem verdict_eq_of_gap_before_point :
  verdict {} "1.5 \t.2<=&\"x\"".toList = verdict {} "1.5.2<=&\"x\"".toList
    ∧ verdict {} "1.5.2<=&\"x\" // \"y".toList = verdict {} "1.5.2<=&\"x\"".toList
  := by
  have hunbroken : Text.Unbroken "1.5.2<=&\"x\"".toList := Text.unbroken_of_all rfl
  have htokens : properTokens "1.5.2<=&\"x\"".toList
      = [⟨.float, 0, "1.5".toList, {}, 0⟩]
        ++ [⟨.symbol .dot, 3, ['.'], {}, 0⟩, ⟨.integer, 4, ['2'], {}, 0⟩,
          ⟨.symbol .lessEqual, 5, "<=".toList, {}, 0⟩, ⟨.skipped, 7, ['&'], {}, 0⟩,
          ⟨.string, 8, "\"x\"".toList, ⟨false, true, false, false⟩, 0⟩] := by
    decide +kernel
  have hend : properTokens "1.5.2<=&\"x\"".toList
      = properTokens "1.5.2<=&\"x\"".toList ++ [] := (List.append_nil _).symm
  constructor
  · exact (verdict_eq_of_gap {} hunbroken htokens (by decide)).1 [' ', '\t'] (by simp)
  · exact (verdict_eq_of_gap {} hunbroken hend (by rw [htokens]; decide)).2 rfl " \"y".toList
      (Text.unbroken_of_all rfl)

end TriggerLang
