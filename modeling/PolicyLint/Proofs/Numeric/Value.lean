import Mathlib.Algebra.Order.Field.Power
import Mathlib.Data.Rat.Cast.Order
import Mathlib.Tactic.FieldSimp
import Mathlib.Tactic.Linarith
import Mathlib.Tactic.Positivity
import Mathlib.Tactic.Ring
import PolicyLint.Json.Value
/-!
The exact values of numbers, as rationals. What the arithmetic on ratios of naturals says of a double is
said of its value: that it is whole, what it truncates to, and that it lies below a bound.
-/
namespace PolicyLint

/-- A power with a sign in its exponent, as a ratio of two without. -/
theorem pow_toNat_eq {b : ℚ} (nonzero : b ≠ 0) (e : ℤ) :
    b ^ e.toNat = b ^ e * b ^ (-e).toNat := by
  rcases Int.le_total 0 e with up | down
  · have zero : (-e).toNat = 0 := by omega
    rw [zero, pow_zero, mul_one, ← zpow_natCast, Int.toNat_of_nonneg up]
  · have zero : e.toNat = 0 := by omega
    rw [zero, pow_zero, ← zpow_natCast b (-e).toNat,
      Int.toNat_of_nonneg (by omega), ← zpow_add₀ nonzero, add_neg_cancel, zpow_zero]

theorem abs_signed {x : ℚ} (nonneg : 0 ≤ x) (negative : Bool) :
    |if negative then -x else x| = x := by
  split
  · rw [abs_neg, abs_of_nonneg nonneg]
  · exact abs_of_nonneg nonneg

namespace Double

def magnitude (d : Double) : ℚ :=
  d.significand * 2 ^ d.exponent

def value (d : Double) : ℚ :=
  if d.negative then -d.magnitude else d.magnitude

theorem magnitude_nonneg (d : Double) : 0 ≤ d.magnitude := by
  unfold magnitude
  positivity

theorem magnitude_eq_zero_iff (d : Double) : d.magnitude = 0 ↔ d.isZero = true := by
  simp [magnitude, isZero, zpow_ne_zero]

theorem magnitude_pos {d : Double} (nonzero : d.isZero = false) : 0 < d.magnitude := by
  refine lt_of_le_of_ne d.magnitude_nonneg fun zero => ?_
  simp [(magnitude_eq_zero_iff d).mp zero.symm] at nonzero

theorem abs_value (d : Double) : |d.value| = d.magnitude :=
  abs_signed d.magnitude_nonneg d.negative

theorem ratio_den_pos (d : Double) : 0 < d.ratio.2 :=
  Nat.pow_pos (by decide)

theorem magnitude_mul_den (d : Double) : d.magnitude * d.ratio.2 = d.ratio.1 := by
  simp only [magnitude, ratio, Nat.pow_eq, Nat.cast_mul, Nat.cast_pow, Nat.cast_ofNat,
    pow_toNat_eq two_ne_zero d.exponent]
  ring

theorem magnitude_eq_natCast_iff (d : Double) (n : ℕ) :
    d.magnitude = n ↔ d.ratio.1 = n * d.ratio.2 := by
  have den : (d.ratio.2 : ℚ) ≠ 0 := by exact_mod_cast d.ratio_den_pos.ne'
  rw [← mul_left_inj' den, magnitude_mul_den]
  exact_mod_cast Iff.rfl

theorem isIntegral_iff (d : Double) : d.isIntegral = true ↔ ∃ n : ℕ, d.magnitude = n := by
  simp only [isIntegral, beq_iff_eq, magnitude_eq_natCast_iff]
  constructor
  · intro exact
    exact ⟨_, (Nat.div_mul_cancel (Nat.dvd_of_mod_eq_zero exact)).symm⟩
  · rintro ⟨n, same⟩
    rw [same, Nat.mul_mod_left]

theorem magnitudeBelow_iff (d : Double) (bound : ℕ) :
    d.magnitudeBelow bound = true ↔ d.magnitude < bound := by
  have den : (0 : ℚ) < d.ratio.2 := by exact_mod_cast d.ratio_den_pos
  rw [← mul_lt_mul_iff_of_pos_right den, magnitude_mul_den, magnitudeBelow, decide_eq_true_iff]
  exact_mod_cast Iff.rfl

theorem magnitude_of_value {d : Double} {i : ℤ} (whole : d.value = i) :
    d.magnitude = i.natAbs := by
  rw [← abs_value, whole, Nat.cast_natAbs, Int.cast_abs]

theorem isIntegral_of_value {d : Double} {i : ℤ} (whole : d.value = i) : d.isIntegral = true :=
  (isIntegral_iff d).mpr ⟨_, magnitude_of_value whole⟩

theorem truncate_of_value {d : Double} {i : ℤ} (whole : d.value = i) : d.truncate = i := by
  have exact := (magnitude_eq_natCast_iff d _).mp (magnitude_of_value whole)
  have sign : if d.negative then i ≤ 0 else 0 ≤ i := by
    have nonneg := d.magnitude_nonneg
    unfold value at whole
    split at whole <;> rename_i negative <;> simp only [negative]
    · have : (i : ℚ) ≤ 0 := by linarith
      exact_mod_cast this
    · have : (0 : ℚ) ≤ i := by linarith
      simpa using (by exact_mod_cast this : 0 ≤ i)
  rw [truncate, exact, Nat.mul_div_cancel _ d.ratio_den_pos, apply]
  split at sign <;> rename_i negative <;> simp only [negative] <;> grind

theorem value_of_isIntegral {d : Double} (whole : d.isIntegral = true) : d.value = d.truncate := by
  obtain ⟨n, same⟩ := (isIntegral_iff d).mp whole
  have : d.value = (apply d.negative n : ℤ) := by
    rw [value, apply, same]
    split <;> simp
  rw [this, truncate_of_value this]

end Double

def Number.value : Number → ℚ
  | .integer i _ => i
  | .real d => d.value

end PolicyLint
