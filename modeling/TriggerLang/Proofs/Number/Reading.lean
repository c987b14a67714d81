import Mathlib.Tactic.Common
import Mathlib.Tactic.Ring
import TriggerLang.Number.Decimal
import TriggerLang.Text.Numeral

/-!
# Reading printed numbers

A number that has been printed is read back as itself.  For integers this is a matter of
digits.  A decimal read as a floating-point number depends on its value only, not on how it
is split into a coefficient and a power of ten, so neither dropping zeros nor laying the
digits out around the point changes what is read.
-/

namespace TriggerLang

/-! ### Digits -/

theorem isDigit_of_mem_toDigits {n : Nat} {c : Char} (h : c ∈ Nat.toDigits 10 n) :
  Text.isDigit c = true
  := by
  have hc := Nat.isDigit_of_mem_toDigits (by decide) (by decide) h
  simpa [Char.isDigit, Text.isDigit, Char.le_def] using hc

theorem readDigits_toDigits (n : Nat) :
  readDigits (Nat.toDigits 10 n) = n
  := Nat.ofDigitChars_ten_toDigits

theorem readDigits_append (digits more : List Char) :
  readDigits (digits ++ more) = 10 ^ more.length * readDigits digits + readDigits more
  := by
  rw [readDigits, Nat.ofDigitChars_append, Nat.ofDigitChars_eq_ofDigitChars_zero]
  rfl

theorem readDigits_replicate_zero (n : Nat) :
  readDigits (List.replicate n '0') = 0
  := by
  rw [readDigits, Nat.ofDigitChars_replicate_zero, Nat.mul_zero]

namespace Magnitude

/-! ### Ratios -/

theorem roundDiv_mul (a b : Nat) {k : Nat} (hk : 0 < k) :
  roundDiv (a * k) (b * k) = roundDiv a b
  := by
  have hlt : 2 * (a % b * k) < b * k ↔ 2 * (a % b) < b := by
    rw [← Nat.mul_assoc]
    exact Nat.mul_lt_mul_right hk
  have heq : 2 * (a % b * k) = b * k ↔ 2 * (a % b) = b := by
    rw [← Nat.mul_assoc]
    exact Nat.mul_left_inj (Nat.ne_of_gt hk)
  rw [roundDiv, roundDiv, Nat.mul_mod_mul_right, Nat.mul_div_mul_right _ _ hk]
  simp only [hlt, heq]

/-- The magnitude nearest to a ratio depends on the ratio only. -/
theorem nearest_mul (a b : Nat) {k : Nat} (hk : 0 < k) :
  nearest (a * k) (b * k) = nearest a b
  := by
  have hshift : b * k * Nat.pow 2 (Nat.log2 (a / b) - 52)
      = b * Nat.pow 2 (Nat.log2 (a / b) - 52) * k := by
    ring
  simp only [nearest]
  rw [Nat.mul_div_mul_right _ _ hk, hshift, roundDiv_mul _ _ hk]

theorem roundDiv_one (a : Nat) :
  roundDiv a 1 = a
  := by
  simp [roundDiv, Nat.mod_one]

theorem roundDiv_mul_self (a : Nat) {b : Nat} (hb : 0 < b) :
  roundDiv (a * b) b = a
  := by
  have h := roundDiv_mul a 1 hb
  rwa [Nat.one_mul, roundDiv_one] at h

/-- A magnitude is the one nearest to itself. -/
theorem nearest_quanta (m : Nat) :
  nearest (quanta m) 1 = m
  := by
  simp only [nearest, Nat.div_one, Nat.one_mul]
  by_cases hm : m < 2 ^ 53
  · -- the least magnitudes are whole numbers of quanta of their own
    have hscale : scale m = 0 := by
      simp only [scale, Nat.pow_eq]
      omega
    have hquanta : quanta m = m := by
      simp [quanta, hscale]
    have hlog : Nat.log2 m - 52 = 0 := by
      by_cases hzero : m = 0
      · simp [hzero]
      · have := (Nat.log2_lt hzero).mpr hm
        omega
    rw [hquanta, hlog, Nat.zero_mul, Nat.zero_add]
    exact roundDiv_one m
  · obtain ⟨t, ht, hm⟩ : ∃ t, (2 ^ 52 ≤ t ∧ t < 2 ^ 53) ∧ m = scale m * 2 ^ 52 + t := by
      use m - scale m * 2 ^ 52
      simp only [scale, Nat.pow_eq]
      omega
    have hquanta : quanta m = t * 2 ^ scale m := by
      have hsub : m - scale m * 2 ^ 52 = t := by omega
      simp only [quanta, Nat.pow_eq, hsub]
    have hlog : Nat.log2 (t * 2 ^ scale m) = 52 + scale m := by
      have hpos : 0 < 2 ^ scale m := Nat.two_pow_pos _
      have hne : t * 2 ^ scale m ≠ 0 := Nat.mul_ne_zero (by omega) (by omega)
      rw [Nat.log2_eq_iff hne, Nat.pow_add, Nat.add_right_comm, Nat.pow_add]
      exact ⟨Nat.mul_le_mul_right _ ht.1, Nat.mul_lt_mul_of_pos_right ht.2 hpos⟩
    rw [hquanta, hlog, Nat.add_sub_cancel_left, Nat.pow_eq, Nat.pow_eq,
      roundDiv_mul_self _ (Nat.two_pow_pos _)]
    exact hm.symm

/-- A magnitude is the one nearest to its value in decimal, with `count` places after the
point. -/
theorem nearest_decimal (m count : Nat) :
  nearest (quanta m * Nat.pow 5 count * Nat.pow 10 0 * Nat.pow 2 count) (Nat.pow 10 count) = m
  := by
  have hratio : quanta m * Nat.pow 5 count * Nat.pow 10 0 * Nat.pow 2 count
      = quanta m * 10 ^ count := by
    simp only [Nat.pow_eq, Nat.pow_zero, Nat.mul_one, Nat.mul_assoc, ← Nat.mul_pow]
  have hscaled := nearest_mul (quanta m) 1 (Nat.pow_pos (n := count) (show 0 < 10 by decide))
  rw [Nat.one_mul, nearest_quanta] at hscaled
  rw [hratio]
  exact hscaled

end Magnitude

namespace Binary64

theorem eq_of_magnitude {x y : Binary64} (hsign : x.negative = y.negative)
    (hmagnitude : x.magnitude = y.magnitude) :
  x = y
  := by
  cases x
  cases y
  simp_all

theorem ofRatio_mul (negative : Bool) (a b : Nat) {k : Nat} (hk : 0 < k) :
  ofRatio negative (a * k) (b * k) = ofRatio negative a b
  := by
  have hshift : a * k * Nat.pow 2 1074 = a * Nat.pow 2 1074 * k := Nat.mul_right_comm _ _ _
  simp only [ofRatio, hshift, Magnitude.nearest_mul _ _ hk]

theorem ofRatio_zero_one :
  (ofRatio false 0 1).magnitude = 0
  := by
  have hnearest : ∀ p, Magnitude.nearest (0 * p) 1 = 0 := by
    intro p
    rw [Nat.zero_mul]
    exact Magnitude.nearest_quanta 0
  simp only [ofRatio, hnearest, Nat.zero_min]

/-- A power of ten can be moved from the exponent to the coefficient. -/
theorem ofDecimal_shift (negative : Bool) (coefficient count : Nat) (exponent : Int) :
  ofDecimal negative (coefficient * 10 ^ count) exponent
    = ofDecimal negative coefficient (exponent + count)
  := by
  obtain ⟨k, hnumerator, hdenominator⟩ : ∃ k, count + exponent.toNat = (exponent + count).toNat + k
      ∧ (-exponent).toNat = (-(exponent + count)).toNat + k := by
    use count + exponent.toNat - (exponent + count).toNat
    omega
  have hcoefficient : coefficient * 10 ^ count * Nat.pow 10 exponent.toNat
      = coefficient * Nat.pow 10 (exponent + count).toNat * 10 ^ k := by
    simp only [Nat.pow_eq]
    rw [Nat.mul_assoc, ← Nat.pow_add, hnumerator, Nat.pow_add, Nat.mul_assoc]
  have hpower : Nat.pow 10 (-exponent).toNat = Nat.pow 10 (-(exponent + count)).toNat * 10 ^ k := by
    simp only [Nat.pow_eq]
    rw [hdenominator, Nat.pow_add]
  rw [ofDecimal, hcoefficient, hpower, ofRatio_mul _ _ _ (Nat.pow_pos (by decide)), ofDecimal]

/-- The exact value of a magnitude is read as that magnitude. -/
theorem ofDecimal_exactDecimal {m : Nat} (h : m ≤ Magnitude.infinite) :
  ofDecimal false (Magnitude.exactDecimal m).coefficient (Magnitude.exactDecimal m).exponent
    = ⟨false, m, h⟩
  := by
  have hnearest := Magnitude.nearest_decimal m 1074
  have hmagnitude : (ofDecimal false (Magnitude.exactDecimal m).coefficient
      (Magnitude.exactDecimal m).exponent).magnitude = min m Magnitude.infinite :=
    congrArg (min · Magnitude.infinite) hnearest
  rw [Nat.min_eq_left h] at hmagnitude
  exact eq_of_magnitude rfl hmagnitude

end Binary64

/-! ### Decimals -/

namespace Decimal

/-- The number that a decimal is read as. -/
def value (d : Decimal) : Binary64 :=
  .ofDecimal false d.coefficient d.exponent

theorem trimZeros_value (d : Decimal) :
  d.trimZeros.value = d.value
  := by
  fun_induction trimZeros d with
  | case1 d h ih =>
    have hcoefficient : d.coefficient = d.coefficient / 10 * 10 ^ 1 := by omega
    rw [ih, value, value, hcoefficient, Binary64.ofDecimal_shift]
    simp
  | case2 => rfl

end Decimal

theorem Magnitude.readingBack_value {m count : Nat} {d : Decimal} (hm : m ≤ infinite)
    (h : readingBack m count = some d) :
  d.value = ⟨false, m, hm⟩
  := by
  obtain ⟨coefficient, hfind, rfl⟩ := Option.map_eq_some_iff.mp h
  have hmagnitude : (Binary64.ofDecimal false coefficient (order m - (count - 1 : Nat))).magnitude
      = m := by simpa using List.find?_some hfind
  exact Binary64.eq_of_magnitude rfl hmagnitude

/-- The shortest decimal of a magnitude is read as that magnitude. -/
theorem Magnitude.shortest_value {m : Nat} (hm : m ≤ infinite) :
  (shortest m).value = ⟨false, m, hm⟩
  := by
  rw [shortest]
  split
  · rename_i hzero
    subst hzero
    exact Binary64.eq_of_magnitude rfl Binary64.ofRatio_zero_one
  · rw [Decimal.trimZeros_value]
    cases hfound : ((List.range 17).map (· + 1)).findSome? (readingBack m) with
    | none => exact Binary64.ofDecimal_exactDecimal hm
    | some d =>
      obtain ⟨count, -, hcount⟩ := List.exists_of_findSome?_eq_some hfound
      exact readingBack_value hm hcount

/-- The text is digits around a point that are read as a number. -/
structure WritesFloat (text : List Char) (x : Binary64) (whole fraction : List Char) : Prop where
  text_eq : text = whole ++ '.' :: fraction
  whole_ne_nil : whole ≠ []
  fraction_ne_nil : fraction ≠ []
  whole_digits : ∀ c ∈ whole, Text.isDigit c = true
  fraction_digits : ∀ c ∈ fraction, Text.isDigit c = true
  value_eq : readPositional whole fraction = x

namespace Decimal

variable {d : Decimal}

theorem isDigit_of_mem_digits {c : Char} (h : c ∈ d.digits) :
  Text.isDigit c = true
  := isDigit_of_mem_toDigits h

theorem isDigit_of_mem_zeros {n : Nat} {c : Char} (h : c ∈ List.replicate n '0') :
  Text.isDigit c = true
  := by
  rw [List.eq_of_mem_replicate h]
  decide

theorem digits_ne_nil :
  d.digits ≠ []
  := Nat.toDigits_ne_nil

theorem readDigits_digits :
  readDigits d.digits = d.coefficient
  := readDigits_toDigits _

/-- A whole number is written with zeros up to the point and one behind it. -/
theorem writesFloat_of_nonneg (h : 0 ≤ d.exponent) :
  WritesFloat d.positional d.value (d.digits ++ List.replicate d.exponent.toNat '0') ['0']
  where
  text_eq := by
    rw [positional]
    exact if_pos h
  whole_ne_nil := by simp [digits_ne_nil]
  fraction_ne_nil := by simp
  whole_digits := by
    intro c hc
    exact (List.mem_append.mp hc).elim isDigit_of_mem_digits isDigit_of_mem_zeros
  fraction_digits := by simp [Text.isDigit]
  value_eq := by
    have hvalue : readDigits (d.digits ++ List.replicate d.exponent.toNat '0' ++ ['0'])
        = d.coefficient * 10 ^ (d.exponent.toNat + 1) := by
      rw [List.append_assoc, readDigits_append, readDigits_append, readDigits_replicate_zero,
        readDigits_digits, List.length_append, List.length_replicate, Nat.mul_comm d.coefficient]
      rfl
    rw [readPositional, hvalue, Binary64.ofDecimal_shift, value]
    congr 1
    simp only [List.length_singleton]
    omega

/-- With fewer places than digits the point stands among the digits. -/
theorem writesFloat_of_places_lt (hexponent : ¬ 0 ≤ d.exponent)
    (hplaces : (-d.exponent).toNat < d.digits.length) :
  WritesFloat d.positional d.value (d.digits.take (d.digits.length - (-d.exponent).toNat))
    (d.digits.drop (d.digits.length - (-d.exponent).toNat))
  where
  text_eq := by
    rw [positional, if_neg hexponent]
    exact if_pos hplaces
  whole_ne_nil := by
    simp only [ne_eq, List.take_eq_nil_iff, not_or]
    exact ⟨by omega, digits_ne_nil⟩
  fraction_ne_nil := by
    simp only [ne_eq, List.drop_eq_nil_iff]
    omega
  whole_digits := fun _ hc => isDigit_of_mem_digits (List.mem_of_mem_take hc)
  fraction_digits := fun _ hc => isDigit_of_mem_digits (List.mem_of_mem_drop hc)
  value_eq := by
    rw [readPositional, List.take_append_drop, readDigits_digits, value, List.length_drop]
    congr 1
    omega

/-- With no fewer places than digits, zeros stand on both sides of the point. -/
theorem writesFloat_of_le_places (hexponent : ¬ 0 ≤ d.exponent)
    (hplaces : ¬ (-d.exponent).toNat < d.digits.length) :
  WritesFloat d.positional d.value ['0']
    (List.replicate ((-d.exponent).toNat - d.digits.length) '0' ++ d.digits)
  where
  text_eq := by
    rw [positional, if_neg hexponent]
    exact if_neg hplaces
  whole_ne_nil := by simp
  fraction_ne_nil := by simp [digits_ne_nil]
  whole_digits := by simp [Text.isDigit]
  fraction_digits := by
    intro c hc
    exact (List.mem_append.mp hc).elim isDigit_of_mem_zeros isDigit_of_mem_digits
  value_eq := by
    have hvalue : readDigits (['0'] ++ (List.replicate ((-d.exponent).toNat - d.digits.length)
        '0' ++ d.digits)) = d.coefficient := by
      rw [readDigits_append, readDigits_append, readDigits_replicate_zero, readDigits_digits]
      change 10 ^ _ * 0 + _ = _
      simp
    rw [readPositional, hvalue, value, List.length_append, List.length_replicate]
    congr 1
    omega

/-- The digits of a decimal around the point are read as its value. -/
theorem writesFloat_positional (d : Decimal) :
  ∃ whole fraction, WritesFloat d.positional d.value whole fraction
  := by
  by_cases hexponent : 0 ≤ d.exponent
  · exact ⟨_, _, writesFloat_of_nonneg hexponent⟩
  · by_cases hplaces : (-d.exponent).toNat < d.digits.length
    · exact ⟨_, _, writesFloat_of_places_lt hexponent hplaces⟩
    · exact ⟨_, _, writesFloat_of_le_places hexponent hplaces⟩

end Decimal

/-- A finite number that is not negative is written as digits around a point that are read as
that number. -/
theorem Binary64.writesFloat_positional {x : Binary64} (hfinite : x.isFinite = true)
    (hsign : x.negative = false) :
  ∃ whole fraction, WritesFloat x.positional x whole fraction
  := by
  obtain ⟨whole, fraction, h⟩ := (Magnitude.shortest x.magnitude).writesFloat_positional
  rw [Magnitude.shortest_value x.magnitude_le] at h
  have htext : x.positional = (Magnitude.shortest x.magnitude).positional := by
    simp [positional, sign, hsign, hfinite]
  have hx : (⟨false, x.magnitude, x.magnitude_le⟩ : Binary64) = x := eq_of_magnitude hsign.symm rfl
  rw [hx] at h
  rw [htext]
  exact ⟨whole, fraction, h⟩

/-- A negative number is written as a minus sign before the number with the other sign. -/
theorem Binary64.positional_of_negative {x : Binary64} (hsign : x.negative = true) :
  x.positional = '-' :: (-x).positional
  := by
  simp [positional, sign, hsign, Neg.neg, neg, isFinite]

end TriggerLang
