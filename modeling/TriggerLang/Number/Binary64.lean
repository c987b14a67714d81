/-!
# Binary floating-point numbers of 64 bits

A number is a sign and a magnitude.  The magnitudes are numbered in increasing order:
`0` is zero, `1` the least positive number `2 ^ -1074`, and `2047 * 2 ^ 52` infinity.
Every finite magnitude is a whole number of `quanta` of size `2 ^ -1074`, and
`Magnitude.nearest` picks the magnitude closest to a ratio of quanta, the one with an
even number if two are as close.  There is no value that is not a number.
-/

namespace TriggerLang

namespace Magnitude

/-- The number of the infinite magnitude. -/
def infinite : Nat :=
  2047 * Nat.pow 2 52

/-- The power of two that the last place of magnitude `m` stands for, in quanta. -/
def scale (m : Nat) : Nat :=
  m / Nat.pow 2 52 - 1

/-- The finite magnitude `m` as a multiple of `2 ^ -1074`. -/
def quanta (m : Nat) : Nat :=
  (m - scale m * Nat.pow 2 52) * Nat.pow 2 (scale m)

/-- The quotient of `a` and `b` rounded to a whole number, a half to the even one. -/
def roundDiv (a b : Nat) : Nat :=
  if 2 * (a % b) < b ∨ 2 * (a % b) = b ∧ a / b % 2 = 0 then a / b else a / b + 1

/-- The magnitude nearest to `a / b` quanta, without regard to overflow. -/
def nearest (a b : Nat) : Nat :=
  let s := Nat.log2 (a / b) - 52
  s * Nat.pow 2 52 + roundDiv a (b * Nat.pow 2 s)

end Magnitude

/-- A floating-point number of 64 bits that is not "not a number". -/
structure Binary64 where
  negative : Bool
  magnitude : Nat
  magnitude_le : magnitude ≤ Magnitude.infinite
deriving DecidableEq

namespace Binary64

/-- The number with the given sign whose magnitude is nearest to `a / b`. -/
def ofRatio (negative : Bool) (a b : Nat) : Binary64 :=
  ⟨negative, min (Magnitude.nearest (a * Nat.pow 2 1074) b) Magnitude.infinite,
    Nat.min_le_right _ _⟩

/-- The number with the given sign nearest to `coefficient * 10 ^ exponent`. -/
def ofDecimal (negative : Bool) (coefficient : Nat) (exponent : Int) : Binary64 :=
  ofRatio negative (coefficient * Nat.pow 10 exponent.toNat) (Nat.pow 10 (-exponent).toNat)

/-- The infinite number with the given sign. -/
def infinity (negative : Bool) : Binary64 :=
  ⟨negative, Magnitude.infinite, Nat.le_refl _⟩

/-- The number is finite. -/
def isFinite (x : Binary64) : Bool :=
  x.magnitude < Magnitude.infinite

/-- The number is a zero of either sign. -/
def isZero (x : Binary64) : Bool :=
  x.magnitude == 0

/-- The number with the other sign. -/
def neg (x : Binary64) : Binary64 :=
  { x with negative := !x.negative }

instance : Neg Binary64 :=
  ⟨neg⟩

/-- The whole part of a finite number. -/
def truncate (x : Binary64) : Int :=
  let whole := Magnitude.quanta x.magnitude / Nat.pow 2 1074
  if x.negative then -Int.ofNat whole else Int.ofNat whole

theorem neg_neg (x : Binary64) :
  - -x = x
  := by
  cases x
  simp [Neg.neg, neg]

end Binary64

end TriggerLang
