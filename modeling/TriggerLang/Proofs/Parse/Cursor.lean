import TriggerLang.Proofs.Grammar.Derivation
import TriggerLang.Proofs.Lexing.Lossless
import TriggerLang.Proofs.Text.Position

/-!
# Reading with a cursor

A line can also be read by a procedure for each level of the grammar, all of which move one
cursor over the significant tokens and the end of the line.  What such a procedure relies on is
checked wherever it is used: that the cursor is at a token, that a numeral consists of digits,
that the bounds of a token make a span and its lines and columns a region, and that reading comes
to an end before it goes too deep.  A check that fails is a fault, and is told from the two
reasons for which a line is refused.
-/

namespace TriggerLang

namespace Parse

/-- What must not happen while a line is read. -/
inductive Fault where
  /-- The cursor is at no token. -/
  | outside
  /-- The text is no numeral that can be converted. -/
  | numeral (text : List Char)
  /-- A span or a region cannot be made. -/
  | range (error : Text.RangeError)
  /-- Reading goes on deeper than it may. -/
  | unfinished
deriving DecidableEq

/-- Why reading a line comes to a stop. -/
inductive Stop where
  /-- A token, or the end of the line, cannot stand in its place. -/
  | unexpected (e : Unexpected)
  /-- The name is not known. -/
  | undefined (name : String)
  /-- Something has happened that must not. -/
  | fault (fault : Fault)
deriving DecidableEq

/-- The stop that a failure to parse `source` is announced with. -/
def Stop.ofFailure (source : List Char) : Failure → Stop
  | .unexpected token expected => .unexpected (.of source token expected)
  | .undefined name => .undefined name.word

/-- The most digits of an integer that can be converted. -/
def digitLimit : Nat :=
  4300

namespace Cursor

/-! ### Conversions -/

/-- The integer that digits write. -/
def toInteger (text : List Char) : Except Stop Int :=
  if text ≠ [] ∧ text.all Text.isDigit ∧ text.length ≤ digitLimit then
    .ok (readDigits text)
  else
    .error (.fault (.numeral text))

/-- The floating-point number that digits around a point write. -/
def toFloat (text : List Char) : Except Stop Binary64 :=
  let whole := text.takeWhile Text.isDigit
  match text.dropWhile Text.isDigit with
  | '.' :: fraction =>
    if whole ≠ [] ∧ fraction ≠ [] ∧ fraction.all Text.isDigit then
      .ok (readPositional whole fraction)
    else
      .error (.fault (.numeral text))
  | _ => .error (.fault (.numeral text))

/-- The span of a token, made from its bounds. -/
def spanOf (token : Token) : Except Stop Text.Span :=
  (Text.Span.ofBounds token.start token.stop).mapError fun error => .fault (.range error)

/-- The region of a token, made from the lines and columns of its bounds. -/
def regionOf (source : List Char) (token : Token) : Except Stop Text.Region :=
  let start := Text.Position.ofOffset source token.start
  let stop := Text.Position.ofOffset source token.stop
  (Text.Region.ofInts start.line start.column stop.line stop.column).mapError
    fun error => .fault (.range error)

/-- The span of a token is made, and the region of a string without a closing quote. -/
def check (source : List Char) (token : Token) : Except Stop Unit := do
  let _ ← spanOf token
  if token.flags.unterminated then
    let _ ← regionOf source token

/-- The tokens under the cursor: those that mean something, and the end of the text. -/
def scan (source : List Char) : Except Stop (List Token) := do
  (tokens source).forM (check source)
  return (tokens source).filter (·.kind.isSignificant)

/-! ### Moving -/

section

variable (ts : List Token)

/-- The token at the cursor. -/
def current (p : Nat) : Except Stop Token :=
  match ts[p]? with
  | some token => .ok token
  | none => .error (.fault .outside)

/-- The token behind the one at the cursor, or the last one if there is none. -/
def following (p : Nat) : Except Stop Token :=
  current ts (min (p + 1) (ts.length - 1))

/-- The last token. -/
def last : Except Stop Token :=
  current ts (ts.length - 1)

/-- The cursor behind its token; it stays at the end of the text. -/
def advance (p : Nat) : Except Stop Nat := do
  let token ← current ts p
  return if token.kind = .endOfText then p else p + 1

/-- A token is refused where it stands. -/
def refuse {α : Type} (source : List Char) (token : Token) (expected : List Expectation) :
    Except Stop α := do
  let region ← regionOf source token
  let atEnd := token.kind == .endOfText
  .error (.unexpected
    { got := if atEnd then "end of line" else token.word
      expected := expected.map Expectation.text
      region
      recoverable := atEnd })

/-- The cursor behind the symbol at it. -/
def expect (source : List Char) (s : Symbol) (p : Nat) : Except Stop Nat := do
  let token ← current ts p
  if token.isSymbol s then
    advance ts p
  else
    refuse source token [.literal (String.ofList s.spelling)]

end

/-! ### Procedures -/

section

variable (scope : Scope) (source : List Char) (ts : List Token)

/-- A procedure that reads a fragment: from a cursor to the fragment and the cursor behind it. -/
abbrev Reader :=
  Nat → Except Stop (Fragment × Nat)

/-- The operators of a level with the operands behind them, of which there are at most
`steps`. -/
def readSteps (level : Level) (operand : Reader) : Nat → Fragment → Reader
  | 0, _, _ => .error (.fault .unfinished)
  | steps + 1, left, p => do
    let token ← current ts p
    match Operator.ofToken? token with
    | some op =>
      if op.level = level then
        let p ← advance ts p
        let (right, p) ← operand p
        readSteps level operand steps (op.apply scope.catalog left right) p
      else
        return (left, p)
    | none => return (left, p)

/-- Operands with the operators of a level between them. -/
def readChain (level : Level) (operand : Reader) (steps : Nat) : Reader := fun p => do
  let (left, p) ← operand p
  readSteps scope ts level operand steps left p

/-- The comparison of a value with the operand behind it, or the value alone. -/
def readCompared (operand : Reader) (left : Fragment) : Reader := fun p => do
  let token ← current ts p
  match Operator.ofToken? token with
  | some op =>
    if op.isComparison then
      let p ← advance ts p
      let (right, p) ← operand p
      return (op.apply scope.catalog left right, p)
    else
      return (left, p)
  | none => return (left, p)

/-- An operand, or the comparison of two. -/
def readComparison (operand : Reader) : Reader := fun p => do
  let (left, p) ← operand p
  readCompared scope ts operand left p

/-- A minus sign before its operand, or a primary expression. -/
def readUnary (operand primary : Reader) : Reader := fun p => do
  let token ← current ts p
  if token.isSymbol .minus then
    let p ← advance ts p
    let (value, p) ← operand p
    return (negate value, p)
  else
    primary p

/-- The arguments for the parameters that remain, and the closing bracket. -/
def readArguments (argument : Reader) : (first : Bool) → List Parameter → Fragment.Fields → Reader
  | _, [], fields, p => do
    let p ← expect ts source .closeParen p
    return (.mapping fields, p)
  | first, parameter :: remaining, fields, p => do
    let p ← if first then pure p else expect ts source .comma p
    let (value, p) ← argument p
    readArguments argument false remaining (addArgument fields parameter value) p

/-- The call of a function whose name is at the cursor. -/
def readCall (argument : Reader) (signature : Signature) : Reader := fun p => do
  let p ← advance ts p
  let p ← expect ts source .openParen p
  readArguments source ts argument true signature.parameters [("function", .string signature.key)] p

/-- What a name at the cursor stands for. -/
def readName (argument : Reader) (head : Token) : Reader := fun p => do
  let name := head.word
  if name = "true" ∨ name = "false" then
    let p ← advance ts p
    return (.boolean (name = "true"), p)
  else if keywords.contains name then
    refuse source head operandExpected
  else
    let behind ← following ts p
    match behind.isSymbol .openParen, scope.catalog.get? name with
    | true, none => refuse source head [.function]
    | true, some signature => readCall source ts argument signature p
    | false, some signature =>
      let p ← advance ts p
      if signature.parameters.isEmpty then
        return (.call name, p)
      else
        refuse source (← current ts p) [.literal "("]
    | false, none =>
      match scope.declarations.variableType? name with
      | some dataType =>
        let p ← advance ts p
        return (.mapping [("function", .string variableFunction), ("variableName", .string name),
          (dataTypeField, .string dataType)], p)
      | none => .error (.undefined name)

/-- A literal, an expression in brackets, or a name. -/
def readPrimary (expression : Reader) : Reader := fun p => do
  let token ← current ts p
  match token.kind with
  | .integer =>
    let p ← advance ts p
    return (.integer (← toInteger token.text), p)
  | .float =>
    let p ← advance ts p
    return (.float (← toFloat token.text), p)
  | .string =>
    if token.flags.unterminated then
      refuse source (← last ts) [.literal "\""]
    else
      let p ← advance ts p
      return (.string (String.ofList (unquote token.text)), p)
  | .symbol .openParen =>
    let p ← advance ts p
    let (value, p) ← expression p
    let p ← expect ts source .closeParen p
    return (value, p)
  | .identifier => readName scope source ts expression token p
  | _ => refuse source token operandExpected

/-- An expression of a level, with procedures that call each other up to a depth. -/
def readLevel : (depth : Nat) → Level → Reader
  | 0, _ => fun _ => .error (.fault .unfinished)
  | depth + 1, level =>
    match level with
    | .expression => readChain scope ts .expression (readLevel depth .conjunction) depth
    | .conjunction => readChain scope ts .conjunction (readLevel depth .comparison) depth
    | .comparison => readComparison scope ts (readLevel depth .sum)
    | .sum => readChain scope ts .sum (readLevel depth .product) depth
    | .product => readChain scope ts .product (readLevel depth .unary) depth
    | .unary => readUnary ts (readLevel depth .unary) (readLevel depth .primary)
    | .primary => readPrimary scope source ts (readLevel depth .expression)

/-- The trigger whose sign is at the cursor. -/
def readTrigger : Reader := fun p => do
  let p ← expect ts source .at p
  let token ← current ts p
  if token.kind = .identifier then
    if scope.knowsTrigger token.word then
      let p ← advance ts p
      return (.mapping [("type", .string token.word)], p)
    else
      .error (.undefined token.word)
  else
    refuse source token [.trigger]

/-- The fragment of a line that is to end at the cursor. -/
def readEnd (fragment : Fragment) (p : Nat) : Except Stop Fragment := do
  let token ← current ts p
  if token.kind = .endOfText then
    return fragment
  else
    refuse source token continuationExpected

end

/-- A whole line, with procedures that call each other up to a depth. -/
def readLine (scope : Scope) (source : List Char) (depth : Nat) : Except Stop Fragment := do
  let ts ← scan source
  let first ← current ts 0
  let (fragment, p) ←
    if first.isSymbol .at then readTrigger scope source ts 0
    else readLevel scope source ts depth .expression 0
  readEnd source ts fragment p

/-! ### Checks that do not fail -/

/-- The bounds of a token make a span. -/
theorem spanOf_eq (token : Token) :
  spanOf token = .ok token.span
  := by
  have hstart : ¬ (token.start : Int) < 0 := by omega
  have hstop : ¬ (token.stop : Int) < 0 := by omega
  have hle : token.start ≤ token.stop := token.span.start_le_stop
  rw [spanOf, Text.Span.ofBounds, Text.readSize, Text.readSize, if_neg hstart, if_neg hstop]
  change (Except.mapError _ (dite (token.start ≤ token.stop) _ _)) = _
  rw [dif_pos hle]
  rfl

/-- The lines and columns of a token make a region. -/
theorem regionOf_eq (source : List Char) (token : Token) :
  regionOf source token = .ok (token.region source)
  := by
  exact congrArg (Except.mapError _) (Text.Region.ofInts_ofOffset source token.span)

theorem check_eq (source : List Char) (token : Token) :
  check source token = .ok ()
  := by
  rw [check, spanOf_eq, regionOf_eq]
  cases token.flags.unterminated <;> rfl

/-- The significant tokens of a text and its end. -/
def lineTokens (source : List Char) : List Token :=
  significantTokens source ++ [endToken source]

theorem scan_eq (source : List Char) :
  scan source = .ok (lineTokens source)
  := by
  have hforM : ∀ ts : List Token, ts.forM (check source) = .ok () := by
    intro ts
    induction ts with
    | nil => rfl
    | cons token rest ih =>
      change (check source token >>= fun _ => rest.forM (check source)) = _
      rw [check_eq]
      exact ih
  rw [scan, hforM, tokens, List.filter_append]
  rfl

/-- A token that means something is no end of the text. -/
theorem kind_ne_of_mem_significantTokens {source : List Char} {t : Token}
    (h : t ∈ significantTokens source) :
  t.kind ≠ .endOfText
  := kind_ne_of_mem_properTokens (List.mem_filter.mp h).1

/-- The text of an integer within the limit is converted. -/
theorem toInteger_eq {source : List Char} {t : Token} (h : t ∈ significantTokens source)
    (hkind : t.kind = .integer) (hlimit : t.text.length ≤ digitLimit) :
  toInteger t.text = .ok (readDigits t.text)
  := by
  obtain ⟨c, others, hfirst, htext⟩ := exists_first_of_mem_properTokens (List.mem_filter.mp h).1
  have hne : t.text ≠ [] := htext ▸ Lexeme.first_text_ne_nil c others
  have hdigits : t.text.all Text.isDigit = true := by
    rw [hfirst] at hkind
    rw [htext]
    have hisFirst := Lexeme.isFirst_first c others
    generalize Lexeme.first c others = lexeme at hkind hisFirst
    cases hisFirst with
    | number =>
      rw [(Lexeme.of_number_integer hkind).1]
      exact List.all_takeWhile
    | string => simp [Lexeme.stringBody_kind] at hkind
    | _ => cases hkind
  rw [toInteger, if_pos ⟨hne, hdigits, hlimit⟩]

/-- Digits around a point are converted. -/
theorem toFloat_digits {whole fraction : List Char}
    (hwhole : whole ≠ []) (hfraction : fraction ≠ [])
    (hwholeDigits : ∀ c ∈ whole, Text.isDigit c = true)
    (hfractionDigits : ∀ c ∈ fraction, Text.isDigit c = true) :
  toFloat (whole ++ '.' :: fraction) = .ok (Grammar.floatValue (whole ++ '.' :: fraction))
  := by
  have hpoint : ∀ c ∈ ('.' :: fraction).head?, Text.isDigit c = false := by
    rintro c ⟨⟩
    decide
  have htake := List.takeWhile_append_of_head hwholeDigits hpoint
  have hdrop := List.dropWhile_append_of_head hwholeDigits hpoint
  have hafter : (whole ++ '.' :: fraction).drop (whole.length + 1) = fraction := by
    rw [← List.drop_drop, List.drop_left]
    rfl
  have hall : fraction.all Text.isDigit = true := List.all_eq_true.mpr hfractionDigits
  rw [toFloat, Grammar.floatValue, htake, hdrop, hafter]
  exact if_pos ⟨hwhole, hfraction, hall⟩

/-- The text of a floating-point number is converted. -/
theorem toFloat_eq {source : List Char} {t : Token} (h : t ∈ significantTokens source)
    (hkind : t.kind = .float) :
  toFloat t.text = .ok (Grammar.floatValue t.text)
  := by
  obtain ⟨c, others, hfirst, htext⟩ := exists_first_of_mem_properTokens (List.mem_filter.mp h).1
  rw [hfirst] at hkind
  rw [htext]
  have hisFirst := Lexeme.isFirst_first c others
  generalize Lexeme.first c others = lexeme at hkind hisFirst ⊢
  cases hisFirst with
  | number hdigit =>
    have hfloat : (Lexeme.number (c :: others)).kind ≠ .integer := by simp [hkind]
    obtain ⟨d, rest, -, hd, hnumber⟩ := Lexeme.of_number_float hfloat
    rw [hnumber]
    exact toFloat_digits (by simp [hdigit]) (List.cons_ne_nil d _)
      (fun e he => List.mem_takeWhile_imp he)
      (List.forall_mem_cons.mpr ⟨hd, fun e he => List.mem_takeWhile_imp he⟩)
  | string => simp [Lexeme.stringBody_kind] at hkind
  | _ => cases hkind

/-! ### Where the cursor is -/

/-- The cursor is at the first of the tokens that remain, or else at the end of the text. -/
def At (source : List Char) (rest : List Token) (p : Nat) : Prop :=
  ∃ before, significantTokens source = before ++ rest ∧ before.length = p

variable {source : List Char} {t : Token} {rest : List Token} {p : Nat}

theorem at_zero (source : List Char) :
  At source (significantTokens source) 0
  := ⟨[], rfl, rfl⟩

namespace At

theorem mem (h : At source (t :: rest) p) :
  t ∈ significantTokens source
  := by
  obtain ⟨before, hbefore, -⟩ := h
  simp [hbefore]

theorem kind_ne (h : At source (t :: rest) p) :
  t.kind ≠ .endOfText
  := kind_ne_of_mem_significantTokens h.mem

theorem succ (h : At source (t :: rest) p) :
  At source rest (p + 1)
  := by
  obtain ⟨before, hbefore, hlength⟩ := h
  exact ⟨before ++ [t], by simp [hbefore], by simp [hlength]⟩

/-- There is a token at the cursor. -/
theorem current_eq (h : At source rest p) :
  current (lineTokens source) p = .ok (rest.head?.getD (endToken source))
  := by
  obtain ⟨before, hbefore, rfl⟩ := h
  have htoken : (lineTokens source)[before.length]? = (rest ++ [endToken source])[0]? := by
    rw [lineTokens, hbefore, List.append_assoc, List.getElem?_append_right le_rfl, Nat.sub_self]
  rw [current, htoken]
  cases rest <;> rfl

theorem current_cons (h : At source (t :: rest) p) :
  current (lineTokens source) p = .ok t
  := h.current_eq

/-- Behind a token the cursor is at the next one. -/
theorem advance_eq (h : At source (t :: rest) p) :
  advance (lineTokens source) p = .ok (p + 1)
  := by
  rw [advance, h.current_cons]
  exact congrArg Except.ok (if_neg h.kind_ne)

/-- Looking ahead of a token does not lead out of the tokens. -/
theorem following_eq (h : At source (t :: rest) p) :
  following (lineTokens source) p = .ok (rest.head?.getD (endToken source))
  := by
  have hle : p + 1 ≤ (lineTokens source).length - 1 := by
    obtain ⟨before, hbefore, rfl⟩ := h
    simp [lineTokens, hbefore]
  rw [following, Nat.min_eq_left hle]
  exact h.succ.current_eq

end At

/-- The end of the text is no symbol. -/
theorem isSymbol_head?_getD {s : Symbol} (h : ∀ t ∈ rest.head?, t.isSymbol s = false) :
  (rest.head?.getD (endToken source)).isSymbol s = false
  := by
  cases rest with
  | nil => rfl
  | cons t rest => exact h t rfl

theorem last_eq (source : List Char) :
  last (lineTokens source) = .ok (endToken source)
  := by
  simp [last, current, lineTokens]

/-! ### Refusals -/

variable {α : Type}

/-- The end of a text is refused as such. -/
theorem refuse_endToken (source : List Char) (expected : List Expectation) :
  (refuse source (endToken source) expected : Except Stop α)
    = .error (.ofFailure source (.unexpected none expected))
  := by
  rw [refuse, regionOf_eq]
  rfl

/-- A token is refused as such. -/
theorem refuse_eq (ht : t.kind ≠ .endOfText) (source : List Char) (expected : List Expectation) :
  (refuse source t expected : Except Stop α)
    = .error (.ofFailure source (.unexpected (some t) expected))
  := by
  have hend : (t.kind == .endOfText) = false := beq_eq_false_iff_ne.mpr ht
  rw [refuse, regionOf_eq, hend]
  rfl

/-- What is at the cursor is refused as a token or as the end of the text. -/
theorem At.refuse_eq (h : At source rest p) (expected : List Expectation) :
  (refuse source (rest.head?.getD (endToken source)) expected : Except Stop α)
    = .error (.ofFailure source (.unexpected rest.head? expected))
  := by
  cases rest with
  | nil => exact refuse_endToken source expected
  | cons t rest => exact Cursor.refuse_eq h.kind_ne source expected

/-- A symbol that is expected is passed. -/
theorem At.expect_eq (h : At source (t :: rest) p) {s : Symbol} (hs : t.isSymbol s = true) :
  expect (lineTokens source) source s p = .ok (p + 1)
  := by
  rw [expect, h.current_cons]
  change (if t.isSymbol s = true then _ else _) = _
  rw [if_pos hs, h.advance_eq]

/-- Anything but the symbol that is expected is refused. -/
theorem At.expect_eq_error (h : At source rest p) {s : Symbol}
    (hs : ∀ t ∈ rest.head?, t.isSymbol s = false) :
  expect (lineTokens source) source s p
    = .error (.ofFailure source (.unexpected rest.head? [.literal (String.ofList s.spelling)]))
  := by
  rw [expect, h.current_eq]
  simp only [bind, Except.bind, isSymbol_head?_getD hs]
  exact h.refuse_eq [.literal (String.ofList s.spelling)]

/-! ### Procedures at a token -/

section

variable {scope : Scope} {op : Operator} {operand primary expression : Reader} {left : Fragment}

theorem readSteps_of_level (h : At source (t :: rest) p) (hop : Operator.ofToken? t = some op)
    (steps : Nat) :
  readSteps scope (lineTokens source) op.level operand (steps + 1) left p
    = operand (p + 1) >>= fun (right, p) =>
        readSteps scope (lineTokens source) op.level operand steps
          (op.apply scope.catalog left right) p
  := by
  rw [readSteps, h.current_cons]
  simp only [bind, Except.bind, hop, if_true, h.advance_eq]

/-- What is no operator of the level is left to the caller. -/
theorem readSteps_of_ne {level : Level} (h : At source rest p)
    (hop : ∀ t ∈ rest.head?, ∀ op, Operator.ofToken? t = some op → op.level ≠ level)
    (steps : Nat) :
  readSteps scope (lineTokens source) level operand (steps + 1) left p = .ok (left, p)
  := by
  cases rest with
  | nil =>
    rw [readSteps, h.current_eq]
    rfl
  | cons t rest =>
    rw [readSteps, h.current_cons]
    cases hoperator : Operator.ofToken? t with
    | none =>
      simp only [bind, Except.bind, hoperator]
      rfl
    | some op =>
      simp only [bind, Except.bind, hoperator, if_neg (hop t rfl op hoperator)]
      rfl

theorem readCompared_of_isComparison (h : At source (t :: rest) p)
    (hop : Operator.ofToken? t = some op) (hcomparison : op.isComparison = true) :
  readCompared scope (lineTokens source) operand left p
    = operand (p + 1) >>= fun (right, p) => .ok (op.apply scope.catalog left right, p)
  := by
  rw [readCompared, h.current_cons]
  simp only [bind, Except.bind, hop, hcomparison, if_true, h.advance_eq]
  rfl

theorem readCompared_of_not (h : At source rest p)
    (hop : ∀ t ∈ rest.head?, ∀ op, Operator.ofToken? t = some op → op.isComparison = false) :
  readCompared scope (lineTokens source) operand left p = .ok (left, p)
  := by
  cases rest with
  | nil =>
    rw [readCompared, h.current_eq]
    rfl
  | cons t rest =>
    rw [readCompared, h.current_cons]
    cases hoperator : Operator.ofToken? t with
    | none =>
      simp only [bind, Except.bind, hoperator]
      rfl
    | some op =>
      simp only [bind, Except.bind, hoperator, hop t rfl op hoperator]
      rfl

theorem readUnary_of_minus (h : At source (t :: rest) p) (hminus : t.kind = .symbol .minus) :
  readUnary (lineTokens source) operand primary p
    = operand (p + 1) >>= fun (value, p) => .ok (negate value, p)
  := by
  have hsymbol : t.isSymbol .minus = true := by simp [Token.isSymbol, hminus]
  rw [readUnary, h.current_cons]
  simp only [bind, Except.bind, hsymbol, if_true, h.advance_eq]
  rfl

theorem readUnary_of_ne (h : At source rest p)
    (hminus : ∀ t ∈ rest.head?, t.kind ≠ .symbol .minus) :
  readUnary (lineTokens source) operand primary p = primary p
  := by
  cases rest with
  | nil =>
    rw [readUnary, h.current_eq]
    rfl
  | cons t rest =>
    have hsymbol : t.isSymbol .minus = false := by simpa [Token.isSymbol] using hminus t rfl
    rw [readUnary, h.current_cons]
    simp only [bind, Except.bind, hsymbol]
    rfl

/-- At the end of the text no operand can be read. -/
theorem readPrimary_nil (h : At source [] p) :
  readPrimary scope source (lineTokens source) expression p
    = .error (.ofFailure source (.unexpected none operandExpected))
  := by
  rw [readPrimary, h.current_eq]
  exact refuse_endToken source operandExpected

/-- At a token its kind decides how an operand is read. -/
theorem readPrimary_cons (h : At source (t :: rest) p) :
  readPrimary scope source (lineTokens source) expression p
    = match t.kind with
      | .integer => toInteger t.text >>= fun n => .ok (.integer n, p + 1)
      | .float => toFloat t.text >>= fun x => .ok (.float x, p + 1)
      | .string =>
        if t.flags.unterminated then
          .error (.ofFailure source (.unexpected none [.literal "\""]))
        else
          .ok (.string (String.ofList (unquote t.text)), p + 1)
      | .symbol .openParen =>
        expression (p + 1) >>= fun (value, p) =>
          expect (lineTokens source) source .closeParen p >>= fun p => .ok (value, p)
      | .identifier => readName scope source (lineTokens source) expression t p
      | _ => .error (.ofFailure source (.unexpected (some t) operandExpected))
  := by
  rw [readPrimary, h.current_cons]
  simp only [bind, Except.bind, h.advance_eq, last_eq, refuse_endToken, refuse_eq h.kind_ne]
  rfl

/-! ### Procedures at a name -/

theorem readArguments_nil (source : List Char) (ts : List Token) (argument : Reader) (first : Bool)
    (fields : Fragment.Fields) (p : Nat) :
  readArguments source ts argument first [] fields p
    = expect ts source .closeParen p >>= fun p => .ok (.mapping fields, p)
  := by
  rw [readArguments]
  rfl

theorem readArguments_first (source : List Char) (ts : List Token) (argument : Reader)
    (parameter : Parameter) (remaining : List Parameter) (fields : Fragment.Fields) (p : Nat) :
  readArguments source ts argument true (parameter :: remaining) fields p
    = argument p >>= fun (value, p) =>
        readArguments source ts argument false remaining (addArgument fields parameter value) p
  := by
  rw [readArguments]
  rfl

theorem readArguments_further (source : List Char) (ts : List Token) (argument : Reader)
    (parameter : Parameter) (remaining : List Parameter) (fields : Fragment.Fields) (p : Nat) :
  readArguments source ts argument false (parameter :: remaining) fields p
    = expect ts source .comma p >>= fun p => argument p >>= fun (value, p) =>
        readArguments source ts argument false remaining (addArgument fields parameter value) p
  := by
  rw [readArguments]
  rfl

theorem readName_of_boolean (h : At source (t :: rest) p)
    (hname : t.word = "true" ∨ t.word = "false") :
  readName scope source (lineTokens source) expression t p
    = .ok (.boolean (t.word = "true"), p + 1)
  := by
  rw [readName]
  simp only [bind, Except.bind, if_pos hname, h.advance_eq]
  rfl

section

variable (hname : ¬ (t.word = "true" ∨ t.word = "false"))

include hname

theorem readName_of_keyword (h : At source (t :: rest) p)
    (hkeyword : keywords.contains t.word = true) :
  readName scope source (lineTokens source) expression t p
    = .error (.ofFailure source (.unexpected (some t) operandExpected))
  := by
  rw [readName]
  simp only [if_neg hname, if_pos hkeyword, refuse_eq h.kind_ne]

variable (hkeyword : keywords.contains t.word = false)

include hkeyword

/-- A name without an opening bracket behind it is resolved. -/
theorem readName_of_ne (h : At source (t :: rest) p)
    (hopen : ∀ u ∈ rest.head?, u.isSymbol .openParen = false) :
  readName scope source (lineTokens source) expression t p
    = match resolveName scope t rest.head? with
      | .ok value => .ok (value, p + 1)
      | .error failure => .error (.ofFailure source failure)
  := by
  rw [readName, resolveName]
  simp only [if_neg hname, hkeyword, h.following_eq, bind, Except.bind, isSymbol_head?_getD hopen,
    h.advance_eq, h.succ.current_eq, h.succ.refuse_eq]
  cases scope.catalog.get? t.word with
  | none => cases scope.declarations.variableType? t.word <;> rfl
  | some signature =>
    by_cases hempty : signature.parameters.isEmpty = true
    · simp only [hempty, if_true]
      rfl
    · simp only [if_neg hempty]
      rfl

/-- A name with an opening bracket behind it is called. -/
theorem readName_of_openParen {opening : Token} (h : At source (t :: opening :: rest) p)
    (hopen : opening.isSymbol .openParen = true) :
  readName scope source (lineTokens source) expression t p
    = match scope.catalog.get? t.word with
      | none => .error (.ofFailure source (.unexpected (some t) [.function]))
      | some signature =>
        readArguments source (lineTokens source) expression true signature.parameters
          [("function", .string signature.key)] (p + 1 + 1)
  := by
  have hsymbol : ((opening :: rest).head?.getD (endToken source)).isSymbol .openParen = true :=
    hopen
  rw [readName]
  simp only [if_neg hname, hkeyword, h.following_eq, bind, Except.bind, hsymbol]
  cases scope.catalog.get? t.word with
  | none => exact refuse_eq h.kind_ne source [.function]
  | some signature =>
    simp only [readCall, bind, Except.bind, h.advance_eq, h.succ.expect_eq hopen]
    rfl

end

/-! ### Procedures of a line -/

theorem readEnd_nil (h : At source [] p) (fragment : Fragment) :
  readEnd source (lineTokens source) fragment p = .ok fragment
  := by
  rw [readEnd, h.current_eq]
  rfl

/-- Nothing may stand behind the fragment of a line. -/
theorem readEnd_cons (h : At source (t :: rest) p) (fragment : Fragment) :
  readEnd source (lineTokens source) fragment p
    = .error (.ofFailure source (.unexpected (some t) continuationExpected))
  := by
  rw [readEnd, h.current_cons]
  simp only [bind, Except.bind, if_neg h.kind_ne, refuse_eq h.kind_ne]

/-- The sign of a trigger is followed by the name of one that is known. -/
theorem readTrigger_eq {sign : Token} (h : At source (sign :: rest) p)
    (hsign : sign.isSymbol .at = true) :
  readTrigger scope source (lineTokens source) p
    = match rest.head? with
      | none => .error (.ofFailure source (.unexpected none [.trigger]))
      | some name =>
        if name.kind = .identifier then
          if scope.knowsTrigger name.word then
            .ok (.mapping [("type", .string name.word)], p + 1 + 1)
          else
            .error (.ofFailure source (.undefined name))
        else
          .error (.ofFailure source (.unexpected (some name) [.trigger]))
  := by
  rw [readTrigger, h.expect_eq hsign]
  cases rest with
  | nil =>
    simp only [bind, Except.bind, h.succ.current_eq]
    exact refuse_endToken source [.trigger]
  | cons name rest =>
    simp only [bind, Except.bind, h.succ.current_cons, h.succ.advance_eq,
      refuse_eq h.succ.kind_ne]
    rfl

end

end Cursor

end Parse

end TriggerLang
