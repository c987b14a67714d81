import TriggerLang.Number.Binary64

/-!
# Decimal text of numbers

A finite floating-point number is written with the fewest significant digits that read
back as the same number, and of those with the nearest ones.  `Binary64.shortest` looks
for them on the decimal grids of one to seventeen digits: the two neighbours of the
number on a grid are read back, the nearer one first.  The digits are laid out either
positionally, always with a fraction, or with an exponent.
-/

namespace TriggerLang

/-- The number `coefficient * 10 ^ exponent`. -/
structure Decimal where
  coefficient : Nat
  exponent : Int
deriving DecidableEq, Repr

namespace Decimal

/-- The digits of the coefficient. -/
def digits (d : Decimal) : List Char :=
  Nat.toDigits 10 d.coefficient

/-- The same number without the zeros that its coefficient ends with. -/
def trimZeros (d : Decimal) : Decimal :=
  if h : d.coefficient ≠ 0 ∧ d.coefficient % 10 = 0 then
    trimZeros ⟨d.coefficient / 10, d.exponent + 1⟩
  else
    d
termination_by d.coefficient
decreasing_by omega

/-- The exponent of the first digit: the number is `d.ddd * 10 ^ order`. -/
def order (d : Decimal) : Int :=
  d.exponent + (d.digits.length - 1 : Nat)

/-- The digits written out around the point, with at least one digit on either side. -/
def positional (d : Decimal) : List Char :=
  let places := (-d.exponent).toNat
  if 0 ≤ d.exponent then
    d.digits ++ List.replicate d.exponent.toNat '0' ++ ".0".toList
  else if places < d.digits.length then
    let whole := d.digits.length - places
    d.digits.take whole ++ '.' :: d.digits.drop whole
  else
    "0.".toList ++ List.replicate (places - d.digits.length) '0' ++ d.digits

/-- At least two digits for the absolute value of an exponent, after its sign. -/
def exponentText (e : Int) : List Char :=
  let digits := Nat.toDigits 10 e.natAbs
  (if e < 0 then '-' else '+') :: (if digits.length < 2 then '0' :: digits else digits)

/-- One digit before the point, and the exponent after the others. -/
def scientific (d : Decimal) : List Char :=
  let fraction := d.digits.drop 1
  d.digits.take 1 ++ (if fraction.isEmpty then [] else '.' :: fraction) ++
    'e' :: exponentText d.order

end Decimal

namespace Magnitude

/-- `10 ^ order m ≤ x < 10 ^ (order m + 1)` for the number `x` of magnitude `m`, if it is
not zero. -/
def order (m : Nat) : Int :=
  (Nat.toDigits 10 (quanta m * Nat.pow 10 324 / Nat.pow 2 1074)).length - 325

/-- The neighbours of magnitude `m` among the multiples of `10 ^ exponent`, the nearer one
first. -/
def neighbours (m : Nat) (exponent : Int) : List Nat :=
  let a := quanta m * Nat.pow 10 (-exponent).toNat
  let b := Nat.pow 2 1074 * Nat.pow 10 exponent.toNat
  let near := roundDiv a b
  let below := a / b
  [near, if near = below then below + 1 else below]

/-- The neighbour of `m` with `count` significant digits that reads back as `m`, the nearer
one if both do. -/
def readingBack (m count : Nat) : Option Decimal :=
  let exponent := order m - (count - 1 : Nat)
  ((neighbours m exponent).find? fun coefficient =>
    (Binary64.ofDecimal false coefficient exponent).magnitude == m).map (⟨·, exponent⟩)

/-- The exact value of `m`. -/
def exactDecimal (m : Nat) : Decimal :=
  ⟨quanta m * Nat.pow 5 1074, -1074⟩

/-- The shortest decimal that reads back as `m`. -/
def shortest (m : Nat) : Decimal :=
  if m = 0 then
    ⟨0, 0⟩
  else
    ((((List.range 17).map (· + 1)).findSome? (readingBack m)).getD (exactDecimal m)).trimZeros

end Magnitude

/-- An integer in decimal digits. -/
def integerText (n : Int) : List Char :=
  if n < 0 then '-' :: Nat.toDigits 10 n.natAbs else Nat.toDigits 10 n.natAbs

namespace Binary64

/-- The minus sign of a negative number. -/
def sign (x : Binary64) : List Char :=
  if x.negative then ['-'] else []

/-- The number written without an exponent. -/
def positional (x : Binary64) : List Char :=
  x.sign ++ if x.isFinite then (Magnitude.shortest x.magnitude).positional else "inf".toList

/-- The number as a value is shown: positionally if its first digit stands between the
fourth place after the point and the sixteenth before it, otherwise with an exponent. -/
def text (x : Binary64) : List Char :=
  let d := Magnitude.shortest x.magnitude
  if x.isFinite && (d.order < -4 || 16 ≤ d.order) then x.sign ++ d.scientific else x.positional

end Binary64

/-- The number that `digits` write. -/
def readDigits (digits : List Char) : Nat :=
  Nat.ofDigitChars 10 digits 0

/-- The number that `whole` before the point and `fraction` after it write. -/
def readPositional (whole fraction : List Char) : Binary64 :=
  Binary64.ofDecimal false (readDigits (whole ++ fraction)) (-fraction.length)

end TriggerLang
