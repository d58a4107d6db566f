import Mathlib.Data.Nat.Cast.Order.Field
import PolicyLint.Numeric.Shortest
import PolicyLint.Proofs.Numeric.Value
/-!
The magnitudes that are read as a double, and its shortest decimal among them. Main statements: no
magnitude is read as two doubles, and the shortest decimal of a double is read as that double, since
seventeen digits always come near enough.
-/
namespace PolicyLint

namespace Double

/-! ### Magnitudes that are read as a double -/

/-- What the significand counts. -/
def unit (d : Double) : ℚ :=
  2 ^ d.exponent

/-- How far a magnitude may lie below a double, in units. The double before a power of two is nearer. -/
def reach (d : Double) : ℚ :=
  if d.significand = Nat.pow 2 52 ∧ d.exponent ≠ -1074 then 1 / 4 else 1 / 2

def lower (d : Double) : ℚ :=
  (d.significand - d.reach) * d.unit

def upper (d : Double) : ℚ :=
  (d.significand + 1 / 2) * d.unit

/-- The magnitude `x` is read as `d`; halfway between two doubles the even one is taken. -/
def Covers (d : Double) (x : ℚ) : Prop :=
  if d.significand % 2 = 0 then d.lower ≤ x ∧ x ≤ d.upper else d.lower < x ∧ x < d.upper

theorem unit_pos (d : Double) : 0 < d.unit := by
  unfold unit
  positivity

theorem reach_pos (d : Double) : 0 < d.reach := by
  unfold reach
  split <;> norm_num

theorem reach_le (d : Double) : d.reach ≤ 1 / 2 := by
  unfold reach
  split <;> norm_num

theorem magnitude_eq (d : Double) : d.magnitude = d.significand * d.unit := rfl

theorem significand_lt (d : Double) : d.significand < 2 ^ 53 := d.canonical.1

theorem normal_of_exponent {d : Double} (above : -1074 < d.exponent) : 2 ^ 52 ≤ d.significand := by
  obtain ⟨-, -, -, subnormal⟩ := d.canonical
  by_contra small
  have := subnormal (not_le.mp small)
  omega

theorem unit_double {d d' : Double} (less : d.exponent < d'.exponent) : 2 * d.unit ≤ d'.unit := by
  have step : (2 : ℚ) * 2 ^ d.exponent = 2 ^ (d.exponent + 1) := by
    rw [zpow_add_one₀ two_ne_zero, mul_comm]
  rw [unit, unit, step]
  exact zpow_le_zpow_right₀ one_le_two (by omega)

theorem magnitude_lt_of_exponent {d d' : Double} (less : d.exponent < d'.exponent) :
    d.magnitude < d'.magnitude := by
  have small : (d.significand : ℚ) < 2 ^ 53 := by exact_mod_cast d.significand_lt
  have normal : (2 ^ 52 : ℚ) ≤ d'.significand := by
    exact_mod_cast normal_of_exponent (d.canonical.2.1.trans_lt less)
  calc d.magnitude = d.significand * d.unit := rfl
    _ < 2 ^ 53 * d.unit := mul_lt_mul_of_pos_right small d.unit_pos
    _ = 2 ^ 52 * (2 * d.unit) := by ring
    _ ≤ 2 ^ 52 * d'.unit := mul_le_mul_of_nonneg_left (unit_double less) (by positivity)
    _ ≤ d'.significand * d'.unit := mul_le_mul_of_nonneg_right normal d'.unit_pos.le

/-- Each magnitude is written in one way. -/
theorem parts_of_magnitude {d d' : Double} (same : d.magnitude = d'.magnitude) :
    d.significand = d'.significand ∧ d.exponent = d'.exponent := by
  rcases lt_trichotomy d.exponent d'.exponent with smaller | exponents | larger
  · exact absurd same (magnitude_lt_of_exponent smaller).ne
  · have units : d'.unit = d.unit := by rw [unit, unit, exponents]
    rw [magnitude_eq, magnitude_eq, units] at same
    exact ⟨by exact_mod_cast mul_right_cancel₀ d.unit_pos.ne' same, exponents⟩
  · exact absurd same (magnitude_lt_of_exponent larger).ne'

theorem Covers.lower_le {d : Double} {x : ℚ} (covers : d.Covers x) : d.lower ≤ x := by
  unfold Covers at covers
  split at covers
  · exact covers.1
  · exact covers.1.le

theorem Covers.le_upper {d : Double} {x : ℚ} (covers : d.Covers x) : x ≤ d.upper := by
  unfold Covers at covers
  split at covers
  · exact covers.2
  · exact covers.2.le

theorem Covers.even_of_end {d : Double} {x : ℚ} (covers : d.Covers x)
    (atEnd : x = d.lower ∨ x = d.upper) : d.significand % 2 = 0 := by
  unfold Covers at covers
  split at covers
  · assumption
  · rcases atEnd with rfl | rfl
    · exact absurd covers.1 (lt_irrefl _)
    · exact absurd covers.2 (lt_irrefl _)

theorem covers_of_lt {d : Double} {x : ℚ} (above : d.lower < x) (below : x < d.upper) :
    d.Covers x := by
  unfold Covers
  split
  · exact ⟨above.le, below.le⟩
  · exact ⟨above, below⟩

theorem Covers.between {d : Double} {x y z : ℚ} (first : d.Covers x) (last : d.Covers z)
    (above : x ≤ y) (below : y ≤ z) : d.Covers y := by
  by_cases even : d.significand % 2 = 0
  · simp only [Covers, even, if_true] at *
    exact ⟨first.1.trans above, below.trans last.2⟩
  · simp only [Covers, even, if_false] at *
    exact ⟨first.1.trans_le above, below.trans_lt last.2⟩

theorem covers_magnitude (d : Double) : d.Covers d.magnitude := by
  have unit := d.unit_pos
  have reach := mul_pos d.reach_pos unit
  refine covers_of_lt ?_ ?_
  · rw [lower, magnitude_eq, sub_mul]
    linarith
  · rw [upper, magnitude_eq, add_mul]
    linarith

theorem Covers.pos {d : Double} {x : ℚ} (covers : d.Covers x) (nonzero : d.isZero = false) :
    0 < x := by
  refine lt_of_lt_of_le (mul_pos ?_ d.unit_pos) covers.lower_le
  have one : (1 : ℚ) ≤ d.significand := by
    exact_mod_cast Nat.pos_of_ne_zero (by simpa [isZero] using nonzero)
  have half := d.reach_le
  linarith

/-- Across exponents the intervals meet only between the greatest significand and a power of two. -/
theorem upper_le_lower_of_exponent {d d' : Double} (less : d.exponent < d'.exponent) :
    d.upper ≤ d'.lower ∧ (d.upper = d'.lower → d.significand % 2 = 1) := by
  have positive := d.unit_pos
  have double := unit_double less
  have above := d.canonical.2.1.trans_lt less
  have normal := normal_of_exponent above
  have small : (d.significand : ℚ) ≤ 2 ^ 53 - 1 := by
    have : (d.significand : ℚ) + 1 ≤ 2 ^ 53 := by exact_mod_cast d.significand_lt
    linarith
  have bound := mul_le_mul_of_nonneg_right small positive.le
  rw [upper, lower, reach]
  by_cases least : d'.significand = Nat.pow 2 52
  · rw [if_pos ⟨least, above.ne'⟩, least]
    push_cast [Nat.pow_eq]
    refine ⟨by linarith, fun meet => ?_⟩
    have greatest : (2 ^ 53 - 1 : ℚ) ≤ d.significand :=
      le_of_mul_le_mul_right (by linarith) positive
    have : 2 ^ 53 ≤ d.significand + 1 := by
      have : (2 ^ 53 : ℚ) ≤ d.significand + 1 := by linarith
      exact_mod_cast this
    have := d.significand_lt
    omega
  · rw [if_neg (fun h => least h.1)]
    have more : (2 ^ 52 + 1 : ℚ) ≤ d'.significand := by
      exact_mod_cast lt_of_le_of_ne normal (Ne.symm least)
    have bound' := mul_le_mul_of_nonneg_right more d'.unit_pos.le
    have apart : (d.significand + 1 / 2) * d.unit < (d'.significand - 1 / 2) * d'.unit := by
      linarith
    exact ⟨apart.le, fun meet => absurd meet apart.ne⟩

/-- Under one exponent the intervals of neighbours meet halfway. -/
theorem upper_le_lower_of_significand {d d' : Double} (same : d.exponent = d'.exponent)
    (less : d.significand < d'.significand) :
    d.upper ≤ d'.lower ∧ (d.upper = d'.lower → d'.significand = d.significand + 1) := by
  have units : d'.unit = d.unit := by rw [unit, unit, same]
  have half : d'.reach = 1 / 2 := by
    rw [reach, if_neg]
    rintro ⟨least, apart⟩
    refine apart (same ▸ d.canonical.2.2.2 ?_)
    omega
  have more : (d.significand : ℚ) + 1 ≤ d'.significand := by exact_mod_cast less
  rw [upper, lower, units, half]
  refine ⟨mul_le_mul_of_nonneg_right (by linarith) d.unit_pos.le, fun meet => ?_⟩
  have touch := mul_right_cancel₀ d.unit_pos.ne' meet
  have : (d'.significand : ℚ) = d.significand + 1 := by linarith
  exact_mod_cast this

/-- Between two doubles what is read as the smaller ends before what is read as the larger begins; where
the ends meet, one of them does not count. -/
theorem upper_le_lower {d d' : Double} (less : d.magnitude < d'.magnitude) :
    d.upper ≤ d'.lower ∧
      (d.upper = d'.lower → d.significand % 2 = 1 ∨ d'.significand % 2 = 1) := by
  rcases lt_trichotomy d.exponent d'.exponent with smaller | same | larger
  · obtain ⟨order, odd⟩ := upper_le_lower_of_exponent smaller
    exact ⟨order, fun meet => .inl (odd meet)⟩
  · have units : d'.unit = d.unit := by rw [unit, unit, same]
    rw [magnitude_eq, magnitude_eq, units] at less
    have next : d.significand < d'.significand := by
      exact_mod_cast lt_of_mul_lt_mul_right less d.unit_pos.le
    obtain ⟨order, neighbours⟩ := upper_le_lower_of_significand same next
    refine ⟨order, fun meet => ?_⟩
    have := neighbours meet
    omega
  · exact absurd less (magnitude_lt_of_exponent larger).not_gt

/-- No magnitude is read as two doubles. -/
theorem Covers.magnitude_unique {d d' : Double} {x : ℚ} (covers : d.Covers x) (covers' : d'.Covers x) :
    d.magnitude = d'.magnitude := by
  have apart : ∀ {d d' : Double}, d.Covers x → d'.Covers x → ¬ d.magnitude < d'.magnitude := by
    intro d d' covers covers' less
    obtain ⟨order, odd⟩ := upper_le_lower less
    have up := covers.le_upper.antisymm (order.trans covers'.lower_le)
    have low := covers'.lower_le.antisymm (covers.le_upper.trans order)
    have even := covers.even_of_end (.inr up)
    have even' := covers'.even_of_end (.inl low.symm)
    have := odd (up.symm.trans low.symm)
    omega
  exact le_antisymm (not_lt.mp (apart covers' covers)) (not_lt.mp (apart covers covers'))

/-- A natural is read only as a double that is whole. -/
theorem Covers.isIntegral {d : Double} {n : ℕ} (covers : d.Covers n) : d.isIntegral = true := by
  rw [isIntegral_iff]
  rcases Int.le_total 0 d.exponent with up | down
  · refine ⟨d.significand * 2 ^ d.exponent.toNat, ?_⟩
    rw [magnitude, Nat.cast_mul, Nat.cast_pow, Nat.cast_ofNat, ← zpow_natCast,
      Int.toNat_of_nonneg up]
  · have unit := d.unit_pos
    have units : (n : ℚ) = (n * 2 ^ (-d.exponent).toNat : ℕ) * d.unit := by
      have := pow_toNat_eq two_ne_zero d.exponent
      rw [Int.toNat_of_nonpos down, pow_zero] at this
      rw [Nat.cast_mul, Nat.cast_pow, Nat.cast_ofNat, mul_assoc, mul_comm (2 ^ _), Double.unit,
        ← this, mul_one]
    have above := covers.lower_le
    have below := covers.le_upper
    rw [lower, units] at above
    rw [upper, units] at below
    have above := le_of_mul_le_mul_right above unit
    have below := le_of_mul_le_mul_right below unit
    have half := d.reach_le
    generalize n * 2 ^ (-d.exponent).toNat = count at units above below
    have low : (2 * d.significand : ℚ) ≤ 2 * count + 1 := by linarith
    have high : (2 * count : ℚ) ≤ 2 * d.significand + 1 := by linarith
    have low : 2 * d.significand ≤ 2 * count + 1 := by exact_mod_cast low
    have high : 2 * count ≤ 2 * d.significand + 1 := by exact_mod_cast high
    have same : d.significand = count := by omega
    exact ⟨n, by rw [magnitude_eq, same, units]⟩

/-- Half a step of seventeen digits never leaves what is read as a double. -/
theorem covers_of_near {d : Double} {x : ℚ}
    (near : |x - d.magnitude| ≤ d.magnitude / (2 * 10 ^ 16)) : d.Covers x := by
  have unit := d.unit_pos
  have small : (d.significand : ℚ) ≤ 2 ^ 53 := by exact_mod_cast d.significand_lt.le
  have inside : d.magnitude / (2 * 10 ^ 16) < d.reach * d.unit := by
    rw [Double.magnitude_eq, div_lt_iff₀ (by positivity), mul_right_comm]
    refine mul_lt_mul_of_pos_right ?_ unit
    unfold reach
    split
    · rename_i least
      rw [least.1]
      norm_num
    · linarith
  have half := mul_le_mul_of_nonneg_right d.reach_le unit.le
  obtain ⟨low, high⟩ := abs_le.mp near
  rw [Double.magnitude_eq] at low high inside
  refine covers_of_lt ?_ ?_
  · rw [lower, sub_mul]
    linarith
  · rw [upper, add_mul]
    linarith

/-- The natural next to a ratio is at most half away. -/
theorem roundDiv_near (num : ℕ) {den : ℕ} (pos : 0 < den) :
    |(roundDiv num den : ℚ) * den - num| ≤ den / 2 := by
  have parts : (den : ℚ) * (num / den : ℕ) + (num % den : ℕ) = num := by
    exact_mod_cast Nat.div_add_mod num den
  have rest : ((num % den : ℕ) : ℚ) < den := by exact_mod_cast Nat.mod_lt num pos
  have nonneg : (0 : ℚ) ≤ (num % den : ℕ) := Nat.cast_nonneg _
  unfold roundDiv
  dsimp only
  split
  · rename_i above
    have half : (den : ℚ) ≤ 2 * (num % den : ℕ) := by
      exact_mod_cast above.elim le_of_lt fun tie => tie.1.ge
    rw [abs_le]
    push_cast
    constructor <;> linarith
  · rename_i below
    have half : (2 : ℚ) * (num % den : ℕ) ≤ den := by
      exact_mod_cast not_lt.mp fun h => below (.inl h)
    rw [abs_le]
    constructor <;> linarith

end Double

namespace Numeric

/-! ### Decimal grids -/

def Decimal.value (n : Decimal) : ℚ :=
  n.digits * 10 ^ n.exponent

namespace Rounding

theorem of_value (d : Double) : ((Rounding.of d).value : ℚ) = d.magnitude * (Rounding.of d).den := by
  simp only [Rounding.of, Double.magnitude_eq, Double.unit, Nat.pow_eq, Nat.cast_mul, Nat.cast_pow,
    Nat.cast_ofNat, pow_toNat_eq two_ne_zero d.exponent]
  ring

theorem of_den_pos (d : Double) : 0 < (Rounding.of d).den :=
  Nat.mul_pos (by decide) (Nat.pow_pos (by decide))

theorem of_high (d : Double) : ((Rounding.of d).high : ℚ) = d.upper * (Rounding.of d).den := by
  simp only [Rounding.of, Double.upper, Double.unit, Nat.pow_eq, Nat.cast_add, Nat.cast_mul,
    Nat.cast_pow, Nat.cast_ofNat, pow_toNat_eq two_ne_zero d.exponent]
  ring

theorem of_low {d : Double} (nonzero : d.isZero = false) :
    ((Rounding.of d).low : ℚ) = d.lower * (Rounding.of d).den := by
  have pos : 1 ≤ d.significand := Nat.pos_of_ne_zero (by simpa [Double.isZero] using nonzero)
  have room := Nat.mul_le_mul_right (Nat.pow 2 d.exponent.toNat) (Nat.mul_le_mul_left 4 pos)
  simp only [Rounding.of, Double.lower, Double.reach]
  split
  · rw [Nat.cast_sub (by omega)]
    simp only [Double.unit, Nat.pow_eq, Nat.cast_mul, Nat.cast_pow, Nat.cast_ofNat,
      pow_toNat_eq two_ne_zero d.exponent]
    ring
  · rw [Nat.cast_sub (by omega)]
    simp only [Double.unit, Nat.pow_eq, Nat.cast_mul, Nat.cast_pow, Nat.cast_ofNat,
      pow_toNat_eq two_ne_zero d.exponent]
    ring

/-- The interval of naturals holds what is read as the double. -/
theorem holds_of_iff {d : Double} (nonzero : d.isZero = false) (num : ℕ) {den : ℕ} (pos : 0 < den) :
    (Rounding.of d).holds num den = true ↔ d.Covers (num / den) := by
  have units : (0 : ℚ) < (Rounding.of d).den := by exact_mod_cast of_den_pos d
  have den_pos : (0 : ℚ) < den := by exact_mod_cast pos
  have low_le : (Rounding.of d).low * den ≤ num * (Rounding.of d).den ↔ d.lower ≤ num / den := by
    rw [← Nat.cast_le (α := ℚ), Nat.cast_mul, Nat.cast_mul, of_low nonzero, le_div_iff₀ den_pos,
      mul_right_comm, mul_le_mul_iff_of_pos_right units]
  have le_high : num * (Rounding.of d).den ≤ (Rounding.of d).high * den ↔ num / den ≤ d.upper := by
    rw [← Nat.cast_le (α := ℚ), Nat.cast_mul, Nat.cast_mul, of_high, div_le_iff₀ den_pos,
      mul_right_comm d.upper, mul_le_mul_iff_of_pos_right units]
  have low_lt : (Rounding.of d).low * den < num * (Rounding.of d).den ↔ d.lower < num / den := by
    rw [← Nat.cast_lt (α := ℚ), Nat.cast_mul, Nat.cast_mul, of_low nonzero, lt_div_iff₀ den_pos,
      mul_right_comm, mul_lt_mul_iff_of_pos_right units]
  have lt_high : num * (Rounding.of d).den < (Rounding.of d).high * den ↔ num / den < d.upper := by
    rw [← Nat.cast_lt (α := ℚ), Nat.cast_mul, Nat.cast_mul, of_high, div_lt_iff₀ den_pos,
      mul_right_comm d.upper, mul_lt_mul_iff_of_pos_right units]
  have ends : (Rounding.of d).ends = decide (d.significand % 2 = 0) := rfl
  unfold holds Double.Covers
  by_cases even : d.significand % 2 = 0
  · simp [ends, even, low_le, le_high]
  · simp [ends, even, low_lt, lt_high]

theorem grid_point (n : ℕ) (k : ℤ) :
    ((n * Nat.pow 10 k.toNat : ℕ) : ℚ) / (Nat.pow 10 (-k).toNat : ℕ) = n * 10 ^ k := by
  simp only [Nat.pow_eq, Nat.cast_mul, Nat.cast_pow, Nat.cast_ofNat,
    pow_toNat_eq (by norm_num : (10 : ℚ) ≠ 0) k]
  field_simp

/-- Of the two neighbours on a grid the nearer one is tried first. -/
theorem onGrid?_eq (r : Rounding) (k : ℤ) :
    ∃ second, r.onGrid? k =
      let up := Nat.pow 10 k.toNat
      let down := Nat.pow 10 (-k).toNat
      let first := Double.roundDiv (r.value * down) (r.den * up)
      if r.holds (first * up) down then some ⟨first, k⟩
      else if r.holds (second * up) down then some ⟨second, k⟩ else none := by
  let num := r.value * Nat.pow 10 (-k).toNat
  let den := r.den * Nat.pow 10 k.toNat
  refine ⟨if den < 2 * (num % den) ∨ (den = 2 * (num % den) ∧ num / den % 2 = 1) then num / den
    else num / den + 1, ?_⟩
  have nearest : ∀ num den : ℕ, Double.roundDiv num den =
      if den < 2 * (num % den) ∨ (den = 2 * (num % den) ∧ num / den % 2 = 1) then num / den + 1
      else num / den := by
    intro num den
    simp only [Double.roundDiv, eq_comm]
  dsimp only
  rw [nearest]
  rfl

/-- What is found on a grid is read as the double. -/
theorem onGrid?_covers {d : Double} (nonzero : d.isZero = false) {k : ℤ} {n : Decimal}
    (found : (Rounding.of d).onGrid? k = some n) : d.Covers n.value := by
  have down : 0 < Nat.pow 10 (-k).toNat := Nat.pow_pos (by decide)
  have hit : n.exponent = k ∧
      (Rounding.of d).holds (n.digits * Nat.pow 10 k.toNat) (Nat.pow 10 (-k).toNat) = true := by
    obtain ⟨second, shape⟩ := onGrid?_eq (Rounding.of d) k
    rw [shape] at found
    dsimp only at found
    split at found
    · rename_i hit
      cases found
      exact ⟨rfl, hit⟩
    · split at found
      · rename_i hit
        cases found
        exact ⟨rfl, hit⟩
      · cases found
  rw [holds_of_iff nonzero _ down, grid_point] at hit
  rw [Decimal.value, hit.1]
  exact hit.2

/-- A grid is fine enough when its step is a unit of the seventeenth digit. -/
theorem onGrid?_isSome {d : Double} (nonzero : d.isZero = false) {k : ℤ}
    (fine : 10 ^ k ≤ d.magnitude / 10 ^ 16) : ((Rounding.of d).onGrid? k).isSome = true := by
  have down : 0 < Nat.pow 10 (-k).toNat := Nat.pow_pos (by decide)
  have up : 0 < Nat.pow 10 k.toNat := Nat.pow_pos (by decide)
  obtain ⟨second, shape⟩ := onGrid?_eq (Rounding.of d) k
  rw [shape]
  dsimp only
  rw [if_pos]
  · rfl
  rw [holds_of_iff nonzero _ down, grid_point]
  refine Double.covers_of_near ?_
  have near := Double.roundDiv_near ((Rounding.of d).value * Nat.pow 10 (-k).toNat)
    (Nat.mul_pos (of_den_pos d) up)
  generalize Double.roundDiv _ _ = n at near ⊢
  -- Both numbers of the ratio count in one unit, which cancels.
  let one : ℚ := (Rounding.of d).den * (Nat.pow 10 (-k).toNat : ℕ)
  have pos : 0 < one := by
    have := of_den_pos d
    positivity
  have step : (((Rounding.of d).den * Nat.pow 10 k.toNat : ℕ) : ℚ) = 10 ^ k * one := by
    simp only [one, Nat.pow_eq, Nat.cast_mul, Nat.cast_pow, Nat.cast_ofNat,
      pow_toNat_eq (by norm_num : (10 : ℚ) ≠ 0) k]
    ring
  have size : (((Rounding.of d).value * Nat.pow 10 (-k).toNat : ℕ) : ℚ) = d.magnitude * one := by
    rw [Nat.cast_mul, of_value, mul_assoc]
  rw [step, size, ← mul_assoc, ← sub_mul, abs_mul, abs_of_pos pos, mul_div_right_comm,
    mul_le_mul_iff_of_pos_right pos] at near
  calc |(n : ℚ) * 10 ^ k - d.magnitude| ≤ 10 ^ k / 2 := near
    _ ≤ d.magnitude / 10 ^ 16 / 2 := by linarith
    _ = d.magnitude / (2 * 10 ^ 16) := by rw [div_div, mul_comm]

end Rounding

/-! ### The leading digit -/

theorem pow_countDigits_le {n : ℕ} (pos : 0 < n) : 10 ^ (countDigits n - 1) ≤ n := by
  rcases Nat.eq_zero_or_pos (countDigits n - 1) with one | more
  · rw [one]
    exact pos
  · have short := mt (Nat.length_toDigits_le_iff (n := n) (show 1 < 10 by decide) more).mpr
    unfold countDigits at *
    exact not_lt.mp (short (by omega))

theorem lt_pow_countDigits (n : ℕ) : n < 10 ^ countDigits n :=
  (Nat.length_toDigits_le_iff (by decide) Nat.length_toDigits_pos).mp le_rfl

theorem countDigits_pos (n : ℕ) : 0 < countDigits n :=
  Nat.length_toDigits_pos

theorem pow_leadingExponent_le {num den : ℕ} (num_pos : 0 < num) (pos : 0 < den) :
    (10 : ℚ) ^ leadingExponent num den ≤ num / den := by
  have den_pos : (0 : ℚ) < den := by exact_mod_cast pos
  unfold leadingExponent
  split
  · rename_i large
    have whole := Nat.div_pos large pos
    have digits := countDigits_pos (num / den)
    have exponent : (countDigits (num / den) : ℤ) - 1 = (countDigits (num / den) - 1 : ℕ) := by omega
    rw [exponent, zpow_natCast]
    calc (10 : ℚ) ^ (countDigits (num / den) - 1) ≤ (num / den : ℕ) := by
          exact_mod_cast pow_countDigits_le whole
      _ ≤ num / den := Nat.cast_div_le
  · rename_i small
    let above := (den + num - 1) / num
    have ceiling : den ≤ num * above := by
      have parts := Nat.div_add_mod (den + num - 1) num
      have rest := Nat.mod_lt (den + num - 1) num_pos
      change num * above + _ = _ at parts
      omega
    have bound : above ≤ 10 ^ countDigits (above - 1) := by
      have := lt_pow_countDigits (above - 1)
      omega
    have enough : den ≤ num * 10 ^ countDigits (above - 1) :=
      ceiling.trans (Nat.mul_le_mul_left num bound)
    rw [zpow_neg, zpow_natCast, le_div_iff₀ den_pos, inv_mul_le_iff₀ (by positivity), mul_comm]
    exact_mod_cast enough

/-! ### The shortest decimal -/

/-- The shortest decimal of a double is read as the double. -/
theorem shortest_covers {d : Double} (nonzero : d.isZero = false) : d.Covers (shortest d).value := by
  let r := Rounding.of d
  let lead := leadingExponent r.value r.den
  have den : (0 : ℚ) < r.den := by exact_mod_cast Rounding.of_den_pos d
  have size : (r.value : ℚ) / r.den = d.magnitude := by
    rw [Rounding.of_value, mul_div_cancel_right₀ _ den.ne']
  have num : 0 < r.value := by
    have := mul_pos (Double.magnitude_pos nonzero) den
    rw [← Rounding.of_value] at this
    exact_mod_cast this
  have fine : (10 : ℚ) ^ (lead - 16) ≤ d.magnitude / 10 ^ 16 := by
    rw [zpow_sub₀ (by norm_num), ← size]
    exact div_le_div_of_nonneg_right
      (pow_leadingExponent_le num (Rounding.of_den_pos d)) (by positivity)
  have found : ∃ n, (List.range 17).findSome? (fun extra : ℕ => r.onGrid? (lead - extra)) = some n := by
    rw [← Option.isSome_iff_exists, List.findSome?_isSome_iff]
    exact ⟨16, by decide, Rounding.onGrid?_isSome nonzero fine⟩
  obtain ⟨n, found⟩ := found
  have shown : shortest d = n := by
    unfold shortest
    dsimp only
    rw [found, Option.getD_some]
  obtain ⟨extra, -, hit⟩ := List.exists_of_findSome?_eq_some found
  rw [shown]
  exact Rounding.onGrid?_covers nonzero hit

end Numeric
end PolicyLint
