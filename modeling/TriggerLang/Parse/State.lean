import TriggerLang.Operator
import TriggerLang.Parse.Failure
import TriggerLang.Parse.Scope
import TriggerLang.Token.Quoted

/-!
# States of parsing

A line is read token by token, without looking ahead:

    line        := '@' NAME | expression
    expression  := conjunction (('or' | '||') conjunction)*
    conjunction := comparison (('and' | '&&') comparison)*
    comparison  := sum (COMPARISON sum)?
    sum         := product (('+' | '-') product)*
    product     := unary (('*' | '/' | '%') unary)*
    unary       := '-' unary | primary
    primary     := NUMBER | STRING | 'true' | 'false' | call | NAME | '(' expression ')'
    call        := FUNCTION '(' (expression (',' expression)*)? ')'

What has been begun and waits for an operand stands on a stack of frames, the innermost
one first.  An operator closes the frames on top that bind at least as tightly, and a
bracket or a comma closes all frames up to the innermost bracket.  What a name stands for
depends on whether a bracket follows it, so a name is kept until the next token.
-/

namespace TriggerLang.Parse

/-- Something begun that waits for an operand. -/
inductive Frame where
  /-- An operator with its left operand. -/
  | binary (op : Operator) (left : Fragment)
  /-- A minus sign. -/
  | negative
  /-- An opening bracket. -/
  | group
  /-- A call with the fields read so far, at the argument for `parameter`. -/
  | argument (fields : Fragment.Fields) (parameter : Parameter) (remaining : List Parameter)

/-- What has been read of a line. -/
inductive State where
  /-- Nothing. -/
  | start
  /-- The sign of a trigger; its name must follow. -/
  | triggerSign
  /-- A whole trigger. -/
  | trigger (name : String)
  /-- An expression up to a place where an operand must follow. -/
  | operand (stack : List Frame)
  /-- An expression up to a name in the place of an operand. -/
  | name (stack : List Frame) (name : Token)
  /-- An expression up to the opening bracket of a function without parameters. -/
  | emptyCall (stack : List Frame) (signature : Signature)
  /-- An expression up to the end of an operand. -/
  | operator (stack : List Frame) (value : Fragment)

/-- The names that are no operands. -/
def keywords : List String :=
  ["and", "or", "if", "else", "end"]

/-- What an operand can start with. -/
def operandExpected : List Expectation :=
  [.number, .string, .boolean, .function, .variable, .literal "(", .literal "-"]

/-- What can follow a whole expression. -/
def continuationExpected : List Expectation :=
  [.literal "==", .literal "!=", .literal "<=", .literal ">=", .literal "<", .literal ">",
    .literal "+", .literal "-", .literal "*", .literal "/", .literal "%",
    .literal "and", .literal "or", .endOfLine]

/-- What is expected after an operand that no operator can follow: the end of the innermost
bracket, the next argument, or the end of the line. -/
def expectedAfter : List Frame → List Expectation
  | [] => continuationExpected
  | .group :: _ => [.literal ")"]
  | .argument _ _ [] :: _ => [.literal ")"]
  | .argument _ _ (_ :: _) :: _ => [.literal ","]
  | .binary _ _ :: stack => expectedAfter stack
  | .negative :: stack => expectedAfter stack

/-- The fields of a call with the argument for a parameter.  An argument that is the entity
of the script is labelled with the type of the parameter. -/
def addArgument (fields : Fragment.Fields) (parameter : Parameter) (argument : Fragment) :
    Fragment.Fields :=
  let argument :=
    if argument.functionName? = some thisEntityFunction then
      argument.setField dataTypeField (.string parameter.dataType)
    else
      argument
  Table.set parameter.field argument fields

/-- The stack and the operand after closing the frames on top that bind at least as tightly
as `level`. -/
def settle (catalog : Catalog) (level : Nat) : List Frame → Fragment → List Frame × Fragment
  | .negative :: stack, value => settle catalog level stack (negate value)
  | .binary op left :: stack, value =>
    if level ≤ op.precedence then
      settle catalog level stack (op.apply catalog left value)
    else
      (.binary op left :: stack, value)
  | stack, value => (stack, value)

/-- The level that an operator closes: its own, or that above for a comparison. -/
def closingLevel (op : Operator) : Nat :=
  if op.isComparison then op.precedence + 1 else op.precedence

/-- The innermost frame is a comparison that has its left operand. -/
def endsInComparison : List Frame → Bool
  | .binary op _ :: _ => op.isComparison
  | _ => false

/-- The state after an operand and the token that follows it. -/
def afterOperand (catalog : Catalog) (stack : List Frame) (value : Fragment) (token : Token) :
    Except Failure State :=
  let refusal := .error (.unexpected (some token) (expectedAfter stack))
  match Operator.ofToken? token with
  | some op =>
    match settle catalog (closingLevel op) stack value with
    | (stack, left) =>
      if op.isComparison && endsInComparison stack then
        refusal
      else
        .ok (.operand (.binary op left :: stack))
  | none =>
    match settle catalog 0 stack value with
    | (.group :: stack, value) =>
      if token.isSymbol .closeParen then .ok (.operator stack value) else refusal
    | (.argument fields parameter [] :: stack, value) =>
      if token.isSymbol .closeParen then
        .ok (.operator stack (.mapping (addArgument fields parameter value)))
      else
        refusal
    | (.argument fields parameter (next :: remaining) :: stack, value) =>
      if token.isSymbol .comma then
        .ok (.operand (.argument (addArgument fields parameter value) next remaining :: stack))
      else
        refusal
    | _ => refusal

/-- The fragment of a line that ends after an operand. -/
def endAfterOperand (catalog : Catalog) (stack : List Frame) (value : Fragment) :
    Except Failure Fragment :=
  match settle catalog 0 stack value with
  | ([], value) => .ok value
  | _ => .error (.unexpected none (expectedAfter stack))

/-- The state after a token in the place of an operand. -/
def readOperand (stack : List Frame) (token : Token) : Except Failure State :=
  match token.kind with
  | .integer => .ok (.operator stack (.integer (readDigits token.text)))
  | .float =>
    let whole := token.text.takeWhile Text.isDigit
    let fraction := token.text.drop (whole.length + 1)
    .ok (.operator stack (.float (readPositional whole fraction)))
  | .string =>
    if token.flags.unterminated then
      .error (.unexpected none [.literal "\""])
    else
      .ok (.operator stack (.string (String.ofList (unquote token.text))))
  | .symbol .openParen => .ok (.operand (.group :: stack))
  | .symbol .minus => .ok (.operand (.negative :: stack))
  | .identifier =>
    if token.word = "true" then .ok (.operator stack (.boolean true))
    else if token.word = "false" then .ok (.operator stack (.boolean false))
    else if keywords.contains token.word then .error (.unexpected (some token) operandExpected)
    else .ok (.name stack token)
  | _ => .error (.unexpected (some token) operandExpected)

/-- The operand that a name stands for if no bracket follows it; `following` is the token
after it, or nothing at the end of the line. -/
def resolveName (scope : Scope) (name : Token) (following : Option Token) :
    Except Failure Fragment :=
  match scope.catalog.get? name.word with
  | some signature =>
    if signature.parameters.isEmpty then
      .ok (.call name.word)
    else
      .error (.unexpected following [.literal "("])
  | none =>
    match scope.declarations.variableType? name.word with
    | some dataType =>
      .ok (.mapping [("function", .string variableFunction), ("variableName", .string name.word),
        (dataTypeField, .string dataType)])
    | none => .error (.undefined name)

/-- The state after a name and the opening bracket that follows it. -/
def openCall (catalog : Catalog) (stack : List Frame) (name : Token) : Except Failure State :=
  match catalog.get? name.word with
  | none => .error (.unexpected (some name) [.function])
  | some signature =>
    match signature.parameters with
    | [] => .ok (.emptyCall stack signature)
    | parameter :: remaining =>
      .ok (.operand
        (.argument [("function", .string signature.key)] parameter remaining :: stack))

namespace State

/-- The state after the next token. -/
def next (scope : Scope) : State → Token → Except Failure State
  | .start, token =>
    if token.isSymbol .at then .ok .triggerSign else readOperand [] token
  | .triggerSign, token =>
    if token.kind = .identifier then
      if scope.knowsTrigger token.word then
        .ok (.trigger token.word)
      else
        .error (.undefined token)
    else
      .error (.unexpected (some token) [.trigger])
  | .trigger _, token => .error (.unexpected (some token) continuationExpected)
  | .operand stack, token => readOperand stack token
  | .name stack head, token =>
    if token.isSymbol .openParen then
      openCall scope.catalog stack head
    else
      (resolveName scope head (some token)).bind fun value =>
        afterOperand scope.catalog stack value token
  | .emptyCall stack signature, token =>
    if token.isSymbol .closeParen then
      .ok (.operator stack (.call signature.key))
    else
      .error (.unexpected (some token) [.literal ")"])
  | .operator stack value, token => afterOperand scope.catalog stack value token

/-- The fragment of a line that ends here. -/
def finish (scope : Scope) : State → Except Failure Fragment
  | .start => .error (.unexpected none operandExpected)
  | .triggerSign => .error (.unexpected none [.trigger])
  | .trigger word => .ok (.mapping [("type", .string word)])
  | .operand _ => .error (.unexpected none operandExpected)
  | .name stack head =>
    (resolveName scope head none).bind fun value => endAfterOperand scope.catalog stack value
  | .emptyCall _ _ => .error (.unexpected none [.literal ")"])
  | .operator stack value => endAfterOperand scope.catalog stack value

/-- The fragment of a line whose remaining tokens are given. -/
def run (scope : Scope) : State → List Token → Except Failure Fragment
  | state, [] => state.finish scope
  | state, token :: tokens => (state.next scope token).bind fun state => state.run scope tokens

end State

end TriggerLang.Parse
