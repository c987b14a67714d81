import TriggerLang.Fragment.Shape
import TriggerLang.Text.Blank
import TriggerLang.Text.Numeral

/-!
# Identities of documents

A document has a name, a key, a place in the order of documents, a parent, and may be
protected.  The place is an integer; where an identity is read from data it may be
written as text with a sign, white space around it, underscores between its digits, and
digits of any script.
-/

namespace TriggerLang

/-- What a document is known by. -/
structure Identity where
  name : String
  key : String
  order : Int := 0
  parent : Fragment := .null
  isProtected : Bool := false

/-- Data is no identity. -/
inductive IdentityError where
  /-- The place is not an integer. -/
  | orderNotInteger
  /-- The place is infinite. -/
  | infiniteOrder
  /-- The place is a text that is no integer. -/
  | unreadableOrder (text : String)
  | shape (error : ShapeError)
deriving DecidableEq, Repr

/-- The wording of an identity error, if it has one; of a long text only the start is
shown. -/
def IdentityError.message? : IdentityError → Option String
  | .orderNotInteger => some "DocumentIdentity.order must be an integer"
  | .infiniteOrder => some "cannot convert float infinity to integer"
  | .unreadableOrder text =>
    some ("invalid literal for int() with base 10: " ++
      String.ofList ((quoteShown text.toList).take 200))
  | .shape error => error.message?

/-- The number that decimal digits write that follow those of `value`; a single underscore
may stand between two digits. -/
def readGroupedDigits (value : Nat) : List Char → Option Nat
  | [] => some value
  | '_' :: c :: rest => do
    readGroupedDigits (10 * value + (← Text.decimalDigit? c)) rest
  | c :: rest => do
    readGroupedDigits (10 * value + (← Text.decimalDigit? c)) rest

/-- The number that decimal digits write. -/
def readUnsigned? : List Char → Option Nat
  | [] => none
  | c :: rest => do
    readGroupedDigits (← Text.decimalDigit? c) rest

/-- White space that may stand around an integer: all but the four information
separators. -/
def isMargin (c : Char) : Bool :=
  Text.isBlank c && !(0x1C ≤ c.toNat && c.toNat ≤ 0x1F)

/-- The integer that a text writes. -/
def readInteger? (text : List Char) : Option Int :=
  match ((text.dropWhile isMargin).reverse.dropWhile isMargin).reverse with
  | '-' :: digits => (readUnsigned? digits).map fun n => -Int.ofNat n
  | '+' :: digits => (readUnsigned? digits).map Int.ofNat
  | digits => (readUnsigned? digits).map Int.ofNat

namespace Identity

/-- The integer that a value of the place stands for. -/
def readOrder : Fragment → Except IdentityError Int
  | .boolean b => .ok (if b then 1 else 0)
  | .integer n => .ok n
  | .float x => if x.isFinite then .ok x.truncate else .error .infiniteOrder
  | .string s =>
    match readInteger? s.toList with
    | some n => .ok n
    | none => .error (.unreadableOrder s)
  | _ => .error (.shape .unsuitable)

/-- The identity with the given parts, of which the place must be an integer. -/
def ofParts (name key : String) (order parent : Fragment) (isProtected : Bool) :
    Except IdentityError Identity :=
  match order with
  | .integer order => .ok { name, key, order, parent, isProtected }
  | _ => .error .orderNotInteger

/-- The identity that a fragment describes. -/
def ofFragment? (data : Fragment) : Except IdentityError Identity := do
  let fields ← data.fields?.mapError .shape
  let order ← readOrder ((fields.lookup "order").getD (.integer 0))
  return {
    name := Fragment.plainField "name" "" fields
    key := Fragment.plainField "key" "" fields
    order
    parent := (fields.lookup "parent").getD .null
    isProtected := ((fields.lookup "isProtected").getD (.boolean false)).isTruthy }

end Identity

end TriggerLang
