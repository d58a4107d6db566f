import Mathlib.Data.Rat.Floor
import PolicyLint.Payload
import PolicyLint.Proofs.Numeric.Value
/-!
Numbers as signed words of 64 bits. Main statement: a number counts by its exact value, truncated toward
zero and clamped, although one that is no signed word goes by the nearest double.
-/
namespace PolicyLint

namespace Numeric

/-- The integer next to a number on the side of zero. -/
def towardZero (x : ℚ) : ℤ :=
  if x < 0 then ⌈x⌉ else ⌊x⌋

theorem towardZero_of_nonneg {x : ℚ} (nonneg : 0 ≤ x) : towardZero x = ⌊x⌋ :=
  if_neg nonneg.not_gt

theorem towardZero_neg (x : ℚ) : towardZero (-x) = -towardZero x := by
  rcases lt_trichotomy x 0 with negative | rfl | positive
  · rw [towardZero, towardZero, if_pos negative, if_neg (by linarith), Int.floor_neg]
  · rfl
  · rw [towardZero, towardZero, if_pos (by linarith), if_neg positive.not_gt, Int.ceil_neg]

theorem towardZero_intCast (i : ℤ) : towardZero i = i := by
  unfold towardZero
  split
  · exact Int.ceil_intCast i
  · exact Int.floor_intCast i

theorem towardZero_mono {x y : ℚ} (le : x ≤ y) : towardZero x ≤ towardZero y := by
  unfold towardZero
  split <;> split
  · exact Int.ceil_le_ceil le
  · rename_i negative nonneg
    calc ⌈x⌉ ≤ 0 := Int.ceil_le.mpr (by exact_mod_cast negative.le)
      _ ≤ ⌊y⌋ := Int.floor_nonneg.mpr (not_lt.mp nonneg)
  · rename_i nonneg negative
    exact absurd (le.trans_lt negative) nonneg
  · exact Int.floor_le_floor le

end Numeric

open Numeric

namespace Double

theorem truncate_eq (d : Double) : d.truncate = towardZero d.value := by
  have den : (0 : ℚ) < d.ratio.2 := by exact_mod_cast d.ratio_den_pos
  have magnitude : d.magnitude = d.ratio.1 / d.ratio.2 := by
    rw [eq_div_iff den.ne', magnitude_mul_den]
  have whole : towardZero d.magnitude = (d.ratio.1 / d.ratio.2 : ℕ) := by
    rw [towardZero_of_nonneg d.magnitude_nonneg, magnitude]
    exact Rat.floor_natCast_div_natCast _ _
  rw [truncate, apply, value]
  split
  · rw [towardZero_neg, whole]
  · rw [whole]

theorem inUnits_natCast (num den n : ℕ) : inUnits num den n = (num, den * 2 ^ n) := by
  simp [inUnits]

/-- A natural of exactly 64 bits is counted in units of `2 ^ 11`. -/
theorem scaleFor_large {n : ℕ} (low : 2 ^ 63 ≤ n) (high : n < 2 ^ 64) : scaleFor n 1 = 11 := by
  have log : n.log2 = 63 := (Nat.log2_eq_iff (by omega)).mpr ⟨low, high⟩
  have one : Nat.log2 1 = 0 := by decide
  have guess : max (-1074) (((63 : ℕ) : ℤ) - ((0 : ℕ) : ℤ) - 53) = (10 : ℕ) := by decide
  have units : ¬ n / 2 ^ 10 < 2 ^ 53 := by omega
  rw [scaleFor, log, one, guess, inUnits_natCast, one_mul, Nat.pow_eq, if_neg units]
  rfl

theorem roundDiv_bounds (num den : ℕ) :
    num / den ≤ roundDiv num den ∧ roundDiv num den ≤ num / den + 1 := by
  unfold roundDiv
  dsimp only
  split <;> omega

/-- Rounding to a double takes no natural of exactly 64 bits below `2 ^ 63`. -/
theorem ofRatio?_large {n : ℕ} (low : 2 ^ 63 ≤ n) (high : n < 2 ^ 64) :
    ∃ d, ofRatio? false n 1 = some d ∧ 2 ^ 63 ≤ d.truncate := by
  obtain ⟨least, greatest⟩ := roundDiv_bounds n (2 ^ 11)
  have quotient : 2 ^ 52 ≤ n / 2 ^ 11 ∧ n / 2 ^ 11 < 2 ^ 53 := by omega
  have rounded : ofRatio? false n 1 =
      if roundDiv n (2 ^ 11) < 2 ^ 53 then ofParts? false (roundDiv n (2 ^ 11)) 11
      else ofParts? false (roundDiv n (2 ^ 11) / 2) 12 := by
    have nonzero : n ≠ 0 := by omega
    have units : inUnits n 1 11 = (n, 2 ^ 11) := by simpa using inUnits_natCast n 1 11
    rw [ofRatio?, scaleFor_large low high, if_neg nonzero, units]
    rfl
  rw [rounded]
  generalize roundDiv n (2 ^ 11) = significand at least greatest ⊢
  have given : ∀ (s : ℕ) (e : ℤ) (h : IsCanonical s e), 0 ≤ e → 2 ^ 63 ≤ s * 2 ^ e.toNat →
      ∃ d, ofParts? false s e = some d ∧ 2 ^ 63 ≤ d.truncate := by
    intro s e canonical up large
    refine ⟨_, dif_pos canonical, ?_⟩
    have whole : (-e).toNat = 0 := by omega
    simp only [truncate, apply, ratio, whole, Nat.pow_eq, pow_zero, Nat.div_one, Bool.false_eq_true,
      if_false]
    exact_mod_cast large
  split
  · rename_i short
    refine given _ 11 ⟨short, by decide, by decide, fun less => ?_⟩ (by decide) ?_
    · rw [Nat.pow_eq] at less
      omega
    · show 2 ^ 63 ≤ significand * 2 ^ 11
      omega
  · rename_i long
    obtain rfl : significand = 2 ^ 53 := by omega
    exact given _ 12 (by decide) (by decide) (by decide)

end Double

namespace Number

theorem clamp_mono {i j : ℤ} (le : i ≤ j) : clamp i ≤ clamp j := by
  unfold clamp
  omega

theorem toWord_real (d : Double) : toWord (.real d) = clamp d.truncate := rfl

/-- What a double loses of an unsigned word, clamping would take away as well. -/
theorem toWord_integer (i : ℤ) (fits : IsWord i) : toWord (.integer i fits) = clamp i := by
  by_cases word : clamp i = i
  · rw [toWord, signedWord?, if_pos word, word]
    rfl
  · have low := fits.1
    have high := fits.2
    have large : 9223372036854775808 ≤ i := by
      unfold clamp at word
      omega
    obtain ⟨d, nearest, beyond⟩ : ∃ d, Double.ofRatio? false i.natAbs 1 = some d ∧ 2 ^ 63 ≤ d.truncate :=
      Double.ofRatio?_large (by omega) (by omega)
    have nonneg : decide (i < 0) = false := by
      rw [decide_eq_false_iff_not]
      omega
    rw [toWord, signedWord?, if_neg word, nearest?, nonneg, nearest]
    show clamp d.truncate = clamp i
    unfold clamp
    omega

theorem toWord_eq (n : Number) : n.toWord = clamp (towardZero n.value) := by
  cases n with
  | integer i fits => rw [toWord_integer, value, towardZero_intCast]
  | real d => rw [toWord_real, value, d.truncate_eq]

theorem toWord_mono {n n' : Number} (le : n.value ≤ n'.value) : n.toWord ≤ n'.toWord := by
  rw [toWord_eq, toWord_eq]
  exact clamp_mono (towardZero_mono le)

end Number

namespace Payload

theorem int_of_number {payload : Payload} {key : String} {n : Number}
    (given : payload.get? key = some (.number n)) : payload.int key = n.toWord := by
  rw [int, given]
  rfl

theorem bind_number?_eq_some_iff {given : Option Json} {n : Number} :
    given.bind Json.number? = some n ↔ given = some (.number n) := by
  cases given with
  | none => simp
  | some v => cases v <;> simp [Json.number?]

theorem int_of_no_number {payload : Payload} {key : String}
    (other : ∀ n, payload.get? key ≠ some (.number n)) : payload.int key = 0 := by
  have absent : (payload.get? key).bind Json.number? = none :=
    Option.eq_none_iff_forall_ne_some.mpr fun n given => other n (bind_number?_eq_some_iff.mp given)
  rw [int, absent]
  rfl

/-- A number counts by its exact value, truncated toward zero and clamped to a signed word of 64 bits. So the
greater number gives no lesser word, and numbers of one value give one word, whole numbers and doubles alike.
What is no number counts as zero. -/
theorem int_exact (payload : Payload) (key : String) :
    (∀ n, payload.get? key = some (.number n) → payload.int key = Number.clamp (towardZero n.value)) ∧
    (∀ (other : Payload) (name : String) (n n' : Number),
      payload.get? key = some (.number n) → other.get? name = some (.number n') →
      (n.value ≤ n'.value → payload.int key ≤ other.int name) ∧
      (n.value = n'.value → payload.int key = other.int name)) ∧
    ((∀ n, payload.get? key ≠ some (.number n)) → payload.int key = 0) := by
  refine ⟨fun n given => ?exact, fun other name n n' given given' => ⟨fun le => ?order, fun same => ?spelling⟩,
    int_of_no_number⟩
  case exact => rw [int_of_number given, n.toWord_eq]
  case order =>
    rw [int_of_number given, int_of_number given']
    exact Number.toWord_mono le
  case spelling => rw [int_of_number given, int_of_number given', n.toWord_eq, n'.toWord_eq, same]

/-- The numbers of a map, under their keys. -/
def numbers (payload : Payload) : List (String × Option Number) :=
  payload.fields.map fun member => (member.1, member.2.number?)

/-- One hundred in three spellings, a fraction below zero, and the largest unsigned word. -/
theorem spellings_int_exact :
    let whole : Number := .integer 100 (by decide)
    let real : Number := .real ⟨false, 7036874417766400, -46, by decide⟩
    let below : Number := .real ⟨true, 6192449487634432, -51, by decide⟩
    let largest : Number := .integer 18446744073709551615 (by decide)
    let options : Payload := ⟨[("whole", .number whole), ("pointed", .number real),
      ("scaled", .number real), ("below", .number below), ("largest", .number largest), ("text", .string "7")]⟩
    (Document.decodeText decoder ("\x7b\"whole\":100,\"pointed\":100.0,\"scaled\":1e2,\"below\":-2.75," ++
      "\"largest\":18446744073709551615,\"text\":\"7\"\x7d")).toOption.map numbers = some options.numbers ∧
    options.int "whole" = options.int "pointed" ∧ options.int "whole" = options.int "scaled" ∧
    options.int "below" ≤ options.int "whole" ∧
    options.int "below" = Number.clamp (towardZero below.value) ∧
    options.int "largest" = Number.clamp (towardZero largest.value) ∧ options.int "text" = 0 := by
  intro whole real below largest options
  have same : whole.value = real.value := by
    norm_num [whole, real, Number.value, Double.value, Double.magnitude]
  have less : below.value ≤ whole.value := by
    norm_num [below, whole, Number.value, Double.value, Double.magnitude]
  refine ⟨by decide +kernel, ?_, ?_, ?_, ?_, ?_, ?_⟩
  · exact ((int_exact options "whole").2.1 options "pointed" whole real rfl rfl).2 same
  · exact ((int_exact options "whole").2.1 options "scaled" whole real rfl rfl).2 same
  · exact ((int_exact options "below").2.1 options "whole" below whole rfl rfl).1 less
  · exact (int_exact options "below").1 below rfl
  · exact (int_exact options "largest").1 largest rfl
  · refine (int_exact options "text").2.2 fun n number => ?_
    cases number

end Payload
end PolicyLint
