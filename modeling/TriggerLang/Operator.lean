import TriggerLang.Token.Basic
import TriggerLang.Typing.DataType

/-!
# Operators

The binary operators bind in five levels: `or`, `and`, the comparisons, sums and
products.  All but the comparisons, which do not chain, associate to the left.  A
connective or a comparison makes a condition of its operands, an arithmetic operator a
calculation.
-/

namespace TriggerLang

/-- A binary operator. -/
inductive Operator where
  | or | and
  | equal | notEqual | lessEqual | greaterEqual | less | greater
  | add | subtract | multiply | divide | remainder
deriving DecidableEq, Repr

namespace Operator

/-- All operators. -/
def all : List Operator :=
  [.or, .and, .equal, .notEqual, .lessEqual, .greaterEqual, .less, .greater, .add, .subtract,
    .multiply, .divide, .remainder]

/-- The name of an operator in fragments. -/
def name : Operator → String
  | .or => "OR"
  | .and => "AND"
  | .equal => "=="
  | .notEqual => "!="
  | .lessEqual => "<="
  | .greaterEqual => ">="
  | .less => "<"
  | .greater => ">"
  | .add => "+"
  | .subtract => "-"
  | .multiply => "*"
  | .divide => "/"
  | .remainder => "%"

/-- The operator with a name. -/
def ofName? (name : String) : Option Operator :=
  all.find? (·.name == name)

/-- How an operator is written in a condition. -/
def spelling : Operator → String
  | .or => "or"
  | .and => "and"
  | op => op.name

/-- How tightly an operator binds. -/
def precedence : Operator → Nat
  | .or => 1
  | .and => 2
  | .equal | .notEqual | .lessEqual | .greaterEqual | .less | .greater => 3
  | .add | .subtract => 4
  | .multiply | .divide | .remainder => 5

/-- The operator compares its operands. -/
def isComparison (op : Operator) : Bool :=
  op.precedence == 3

/-- The operator joins truth values. -/
def isConnective (op : Operator) : Bool :=
  op.precedence < 3

/-- The operator that a symbol stands for. -/
def ofSymbol? : Symbol → Option Operator
  | .pipePipe => some .or
  | .ampAmp => some .and
  | .equalEqual => some .equal
  | .notEqual => some .notEqual
  | .lessEqual => some .lessEqual
  | .greaterEqual => some .greaterEqual
  | .less => some .less
  | .greater => some .greater
  | .plus => some .add
  | .minus => some .subtract
  | .star => some .multiply
  | .slash => some .divide
  | .percent => some .remainder
  | _ => none

/-- The operator that a token stands for between two operands. -/
def ofToken? (token : Token) : Option Operator :=
  match token.kind with
  | .symbol s => ofSymbol? s
  | .identifier =>
    if token.word = "or" then some .or else if token.word = "and" then some .and else none
  | _ => none

/-- A mapping that names an operator, and the type of its operands. -/
def header (op : Operator) (operandType : String) : Fragment :=
  .mapping [("operator", .string op.name), ("operandType", .string operandType)]

/-- The calculation with two operands. -/
def calculation (op : Operator) (left right : Fragment) : Fragment :=
  .mapping [("function", .string calculateFunction),
    ("items", .list [.mapping [("operator", .string op.name)], left, right])]

/-- The fragment of an operator between two operands; a comparison is labelled with the type
of its left one. -/
def apply (catalog : Catalog) (op : Operator) (left right : Fragment) : Fragment :=
  if op.isConnective then
    .list [op.header op.spelling, left, right]
  else if op.isComparison then
    .list [op.header (inferType catalog left), left, right]
  else
    op.calculation left right

/-- The fragment of an operator is a condition or a calculation. -/
theorem apply_eq_or (op : Operator) (catalog : Catalog) (left right : Fragment) :
  (∃ operandType, op.apply catalog left right = .list [op.header operandType, left, right])
    ∨ op.apply catalog left right = op.calculation left right
  := by
  rw [apply]
  split
  · exact .inl ⟨_, rfl⟩
  · split
    · exact .inl ⟨_, rfl⟩
    · exact .inr rfl

theorem ofName?_name (op : Operator) :
  ofName? op.name = some op
  := by
  cases op <;> decide

end Operator

/-- The negative of a fragment: a number with the other sign, or a product with minus one. -/
def negate : Fragment → Fragment
  | .integer n => .integer (-n)
  | .float x => .float (-x)
  | fragment => Operator.multiply.calculation (.integer (-1)) fragment

end TriggerLang
