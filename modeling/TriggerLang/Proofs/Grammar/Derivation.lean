import TriggerLang.Parse.Line
import TriggerLang.Proofs.Lexing.Terminal

/-!
# The grammar of lines

A derivation says that terminals stand for a fragment by the rules of the grammar alone:

    line        := '@' NAME | expression
    expression  := conjunction (('or' | '||') conjunction)*
    conjunction := comparison (('and' | '&&') comparison)*
    comparison  := sum (COMPARISON sum)?
    sum         := product (('+' | '-') product)*
    product     := unary (('*' | '/' | '%') unary)*
    unary       := '-' unary | primary
    primary     := NUMBER | STRING | 'true' | 'false' | call | NAME | '(' expression ')'
    call        := FUNCTION '(' (expression (',' expression)*)? ')'

It knows nothing of stacks and of the order in which terminals are read.
-/

namespace TriggerLang

/-- The levels of expressions, from the loosest to the tightest. -/
inductive Level where
  | expression
  | conjunction
  | comparison
  | sum
  | product
  | unary
  | primary
deriving DecidableEq, Repr

/-- How tight a level is. -/
def Level.rank : Level → Nat
  | .expression => 1
  | .conjunction => 2
  | .comparison => 3
  | .sum => 4
  | .product => 5
  | .unary => 6
  | .primary => 7

namespace Operator

/-- The level of what an operator makes of its operands. -/
def level : Operator → Level
  | .or => .expression
  | .and => .conjunction
  | .equal | .notEqual | .lessEqual | .greaterEqual | .less | .greater => .comparison
  | .add | .subtract => .sum
  | .multiply | .divide | .remainder => .product

/-- The level of the left operand: that of the whole, since operators associate to the left,
but for a comparison, which does not chain. -/
def leftLevel : Operator → Level
  | .equal | .notEqual | .lessEqual | .greaterEqual | .less | .greater => .sum
  | op => op.level

/-- The level of the right operand, which is the next tighter one. -/
def rightLevel : Operator → Level
  | .or => .conjunction
  | .and => .comparison
  | .equal | .notEqual | .lessEqual | .greaterEqual | .less | .greater => .sum
  | .add | .subtract => .product
  | .multiply | .divide | .remainder => .unary

theorem level_rank (op : Operator) :
  op.level.rank = op.precedence
  := by
  cases op <;> rfl

theorem leftLevel_rank (op : Operator) :
  op.leftLevel.rank = Parse.closingLevel op
  := by
  cases op <;> rfl

theorem rightLevel_rank (op : Operator) :
  op.rightLevel.rank = op.precedence + 1
  := by
  cases op <;> rfl

end Operator

namespace Grammar

/-- The names that are no operands of their own. -/
def isKeyword (name : String) : Prop :=
  name ∈ ["and", "or", "true", "false", "if", "else", "end"]

instance (name : String) : Decidable (isKeyword name) :=
  inferInstanceAs (Decidable (name ∈ _))

/-- An operator that is a word is a keyword. -/
theorem isKeyword_of_operator? {t : Terminal} (hkind : t.kind = .identifier)
    (h : t.operator?.isSome = true) :
  isKeyword t.word
  := by
  simp only [Terminal.operator?, hkind] at h
  split at h
  · rename_i hword
    rw [hword]
    decide
  · split at h
    · rename_i hword
      rw [hword]
      decide
    · cases h

/-- The floating-point number that a literal writes. -/
def floatValue (text : List Char) : Binary64 :=
  let whole := text.takeWhile Text.isDigit
  readPositional whole (text.drop (whole.length + 1))

/-- The fields of a call with arguments for some of its parameters. -/
def fieldsOf (key : String) (parameters : List Parameter) (arguments : List Fragment) :
    Fragment.Fields :=
  (parameters.zip arguments).foldl
    (fun fields argument => Parse.addArgument fields argument.1 argument.2)
    [("function", .string key)]

/-- The call of a function with an argument for each of its parameters. -/
def callOf (signature : Signature) (arguments : List Fragment) : Fragment :=
  .mapping (fieldsOf signature.key signature.parameters arguments)

theorem callOf_nil (signature : Signature) :
  callOf signature [] = .call signature.key
  := by
  rw [callOf, fieldsOf, List.zip_nil_right]
  rfl

/-- One more argument is added to the fields. -/
theorem fieldsOf_append_singleton
    (key : String) (parameters : List Parameter) (parameter : Parameter)
    (arguments : List Fragment) (argument : Fragment) (h : arguments.length = parameters.length) :
  fieldsOf key (parameters ++ [parameter]) (arguments ++ [argument])
    = Parse.addArgument (fieldsOf key parameters arguments) parameter argument
  := by
  rw [fieldsOf, List.zip_append h.symm, List.foldl_append]
  rfl

/-- The variable with a name and a type. -/
def variableOf (name dataType : String) : Fragment :=
  .mapping [("function", .string variableFunction), ("variableName", .string name),
    (dataTypeField, .string dataType)]

/-- What terminals can stand for. -/
inductive Phrase where
  /-- An expression of a level. -/
  | value (level : Level) (fragment : Fragment)
  /-- The arguments of a call, of which there is at least one. -/
  | arguments (fragments : List Fragment)

/-- The property holds of every fragment of the phrase. -/
def Phrase.All (q : Fragment → Prop) : Phrase → Prop
  | .value _ f => q f
  | .arguments fs => ∀ f ∈ fs, q f

/-- The terminals stand for a phrase. -/
inductive Derives (scope : Parse.Scope) : Phrase → List Terminal → Prop where
  /-- What is of a tighter level is of a looser one. -/
  | loosen {level tighter : Level} {f : Fragment} {ts : List Terminal}
      (h : level.rank ≤ tighter.rank) :
      Derives scope (.value tighter f) ts → Derives scope (.value level f) ts
  /-- An operator between its operands. -/
  | binary {op : Operator} {left right : Fragment} {ts us : List Terminal} {t : Terminal}
      (hop : t.operator? = some op) :
      Derives scope (.value op.leftLevel left) ts →
      Derives scope (.value op.rightLevel right) us →
      Derives scope (.value op.level (op.apply scope.catalog left right)) (ts ++ t :: us)
  /-- A minus sign before its operand. -/
  | negative {f : Fragment} {ts : List Terminal} {t : Terminal}
      (hminus : t.kind = .symbol .minus) :
      Derives scope (.value .unary f) ts → Derives scope (.value .unary (negate f)) (t :: ts)
  | integer {t : Terminal} (hkind : t.kind = .integer) :
      Derives scope (.value .primary (.integer (readDigits t.text))) [t]
  | float {t : Terminal} (hkind : t.kind = .float) :
      Derives scope (.value .primary (.float (floatValue t.text))) [t]
  | string {t : Terminal} (hkind : t.kind = .string) (hclosed : t.unterminated = false) :
      Derives scope (.value .primary (.string (String.ofList (unquote t.text)))) [t]
  | trueWord {t : Terminal} (hkind : t.kind = .identifier) (hword : t.word = "true") :
      Derives scope (.value .primary (.boolean true)) [t]
  | falseWord {t : Terminal} (hkind : t.kind = .identifier) (hword : t.word = "false") :
      Derives scope (.value .primary (.boolean false)) [t]
  /-- An expression in brackets. -/
  | group {f : Fragment} {ts : List Terminal} {opening closing : Terminal}
      (hopen : opening.kind = .symbol .openParen) (hclose : closing.kind = .symbol .closeParen) :
      Derives scope (.value .expression f) ts →
      Derives scope (.value .primary f) (opening :: ts ++ [closing])
  /-- A function with as many arguments in brackets as it has parameters. -/
  | call {signature : Signature} {fs : List Fragment} {ts : List Terminal}
      {name opening closing : Terminal}
      (hname : name.kind = .identifier) (hword : ¬ isKeyword name.word)
      (hfunction : scope.catalog.get? name.word = some signature)
      (harity : fs.length = signature.parameters.length)
      (hopen : opening.kind = .symbol .openParen) (hclose : closing.kind = .symbol .closeParen) :
      Derives scope (.arguments fs) ts →
      Derives scope (.value .primary (callOf signature fs)) (name :: opening :: ts ++ [closing])
  /-- A function without parameters and an empty pair of brackets. -/
  | emptyCall {signature : Signature} {name opening closing : Terminal}
      (hname : name.kind = .identifier) (hword : ¬ isKeyword name.word)
      (hfunction : scope.catalog.get? name.word = some signature)
      (harity : signature.parameters = [])
      (hopen : opening.kind = .symbol .openParen) (hclose : closing.kind = .symbol .closeParen) :
      Derives scope (.value .primary (callOf signature [])) [name, opening, closing]
  /-- A function without parameters by its bare name. -/
  | constant {signature : Signature} {name : Terminal}
      (hname : name.kind = .identifier) (hword : ¬ isKeyword name.word)
      (hfunction : scope.catalog.get? name.word = some signature)
      (harity : signature.parameters = []) :
      Derives scope (.value .primary (callOf signature [])) [name]
  /-- A declared variable that is no function. -/
  | declared {name : Terminal} {dataType : String}
      (hname : name.kind = .identifier) (hword : ¬ isKeyword name.word)
      (hfunction : scope.catalog.get? name.word = none)
      (htype : scope.declarations.variableType? name.word = some dataType) :
      Derives scope (.value .primary (variableOf name.word dataType)) [name]
  /-- The first argument. -/
  | first {f : Fragment} {ts : List Terminal} :
      Derives scope (.value .expression f) ts → Derives scope (.arguments [f]) ts
  /-- One more argument after a comma. -/
  | further {fs : List Fragment} {f : Fragment} {ts us : List Terminal} {t : Terminal}
      (hcomma : t.kind = .symbol .comma) :
      Derives scope (.arguments fs) ts → Derives scope (.value .expression f) us →
      Derives scope (.arguments (fs ++ [f])) (ts ++ t :: us)

/-- The terminals stand for the fragment of a whole line. -/
inductive DerivesLine (scope : Parse.Scope) : Fragment → List Terminal → Prop where
  /-- The sign of a trigger and the name of one that the script may declare. -/
  | trigger {sign name : Terminal} (hsign : sign.kind = .symbol .at)
      (hname : name.kind = .identifier) (hknown : scope.knowsTrigger name.word = true) :
      DerivesLine scope (.mapping [("type", .string name.word)]) [sign, name]
  | expression {f : Fragment} {ts : List Terminal} :
      Derives scope (.value .expression f) ts → DerivesLine scope f ts

variable {scope : Parse.Scope}

/-- There are no arguments without a first one. -/
theorem Derives.arguments_ne_nil {fs : List Fragment} {ts : List Terminal}
    (h : Derives scope (.arguments fs) ts) :
  fs ≠ []
  := by
  cases h with
  | first => simp
  | further => simp

end Grammar

end TriggerLang
