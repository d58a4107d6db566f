import PolicyLint.Proofs.Numeric.Plain
import PolicyLint.Proofs.Query.Constraint
/-!
Numbers in selectors and in XPath expressions. Main statements: a number's text in a selector tells its
value; a whole number is written as it is in a selector, and in XPath as far as it fits a signed word of
64 bits.
-/
namespace PolicyLint

/-- From the least signed word of 64 bits to the largest. -/
def Number.IsSignedWord (i : ℤ) : Prop :=
  -9223372036854775808 ≤ i ∧ i ≤ 9223372036854775807

instance (i : ℤ) : Decidable (Number.IsSignedWord i) := by
  unfold Number.IsSignedWord; infer_instance

theorem Number.eq_of_value {i j : ℤ} {fits} (whole : (Number.integer j fits).value = i) : j = i :=
  Rat.intCast_inj.mp whole

theorem Number.clamp_eq_iff (i : ℤ) : clamp i = i ↔ IsSignedWord i := by
  unfold clamp IsSignedWord
  omega

namespace Query

open Numeric

/-! ### Whole numbers -/

theorem plainNumber_of_value {n : Number} {i : ℤ} (whole : n.value = i) (small : i.natAbs < 10 ^ 21) :
    plainNumber n = toString i := by
  cases n with
  | integer j fits =>
    obtain rfl := Number.eq_of_value whole
    rfl
  | real d =>
    have below : d.magnitudeBelow (Nat.pow 10 21) = true := by
      rw [Double.magnitudeBelow_iff, Double.magnitude_of_value whole]
      exact_mod_cast small
    rw [plainNumber, if_pos ⟨Double.isIntegral_of_value whole, below⟩, Double.truncate_of_value whole]

theorem literalNumber_of_value {n : Number} {i : ℤ} (whole : n.value = i) :
    literalNumber n = toString (Number.clamp i) := by
  cases n with
  | integer j fits =>
    obtain rfl := Number.eq_of_value whole
    rfl
  | real d =>
    rw [literalNumber, if_pos (Double.isIntegral_of_value whole), Double.truncate_of_value whole]

/-- A whole number below `10 ^ 21`, directly or through operator maps, is its digits in the selector; in
XPath it is its digits exactly when it is a signed word, and otherwise those of the nearest one. -/
theorem whole_number_written (key : String) {v : Json} {n : Number} {i : ℤ}
    (scalar : Scalar.of? v = some (.number n)) (whole : n.value = i) (small : i.natAbs < 10 ^ 21) :
    attribute? key v = some ("[" ++ key ++ "=" ++ toString i ++ "]") ∧
    literal? v = some (toString (Number.clamp i)) ∧
    (literal? v = some (toString i) ↔ Number.IsSignedWord i) := by
  have literal : literal? v = some (toString (Number.clamp i)) := by
    rw [literal?_eq, scalar, Option.map_some, Scalar.literal, literalNumber_of_value whole]
  refine ⟨?_, literal, ?_⟩
  · rw [attribute?_eq, scalar, Option.map_some, Constraint.estree, Scalar.estree,
      plainNumber_of_value whole small]
  · rw [literal, Option.some_inj, ← Number.clamp_eq_iff]
    exact ⟨toString_int_injective, congrArg toString⟩

/-- The least signed word, as a double under two operator maps. -/
theorem least_word_written :
    let v := Json.object [("eq", .object [("ne", .null),
      ("eq", .number (.real ⟨true, 4503599627370496, 11, by decide⟩))])]
    attribute? "size" v = some ("[" ++ "size" ++ "=" ++ toString (-9223372036854775808 : ℤ) ++ "]") ∧
    literal? v = some (toString (Number.clamp (-9223372036854775808))) ∧
    (literal? v = some (toString (-9223372036854775808 : ℤ)) ↔
      Number.IsSignedWord (-9223372036854775808)) := by
  refine whole_number_written "size" (n := .real ⟨true, 4503599627370496, 11, by decide⟩) rfl ?_
    (by decide)
  norm_num [Number.value, Double.value, Double.magnitude]

/-- The largest unsigned word is written as another number in XPath. -/
theorem largest_word_clamped :
    let v := Json.number (.integer 18446744073709551615 (by decide))
    attribute? "b" v = some "[b=18446744073709551615]" ∧
      literal? v = some "9223372036854775807" := by
  decide +kernel

/-! ### All numbers -/

/-- The double `10 ^ 21`. -/
def plainBound : Double :=
  ⟨false, 7629394531250000, 17, by decide⟩

theorem plainBound_magnitude : plainBound.magnitude = (10 ^ 21 : ℕ) := by
  norm_num [Double.magnitude, plainBound]

theorem shortest_plainBound : shortest plainBound = ⟨1, 21⟩ := by
  decide +kernel

theorem shortest_congr {d d' : Double} (significands : d.significand = d'.significand)
    (exponents : d.exponent = d'.exponent) : shortest d = shortest d' := by
  simp only [shortest, Rounding.of, significands, exponents]

/-- Where a double is written as its shortest decimal, that decimal is no integer below `10 ^ 21`. -/
theorem shown_ne_small {d : Double}
    (plain : ¬ (d.isIntegral = true ∧ d.magnitudeBelow (Nat.pow 10 21) = true)) {i : ℤ}
    (small : i.natAbs < 10 ^ 21) : shown d ≠ i := by
  intro same
  have magnitude : shownMagnitude d = i.natAbs := by
    rw [← abs_shown, same, Nat.cast_natAbs, Int.cast_abs]
  have covers := shownMagnitude_covers d
  rw [magnitude] at covers
  have large : ((10 ^ 21 : ℕ) : ℚ) ≤ d.magnitude := by
    by_contra below
    refine plain ⟨covers.isIntegral, (Double.magnitudeBelow_iff d _).mpr ?_⟩
    rw [Nat.pow_eq]
    exact not_le.mp below
  -- The double `10 ^ 21` lies between what is shown and `d`, so it is `d`.
  have bound : d.Covers plainBound.magnitude := by
    rw [plainBound_magnitude]
    exact covers.between d.covers_magnitude (by exact_mod_cast small.le) large
  have parts := Double.parts_of_magnitude (bound.magnitude_unique plainBound.covers_magnitude)
  have nonzero : d.isZero = false := by
    simp [Double.isZero, parts.1, plainBound]
  rw [shownMagnitude, nonzero, if_neg Bool.false_ne_true, shortest_congr parts.1 parts.2,
    shortest_plainBound] at magnitude
  have : (10 ^ 21 : ℕ) = i.natAbs := by
    have : ((10 ^ 21 : ℕ) : ℚ) = i.natAbs := by
      rw [← magnitude]
      norm_num [Decimal.value]
    exact_mod_cast this
  omega

/-- A number is written as an integer below `10 ^ 21`, or as the shortest decimal of a double. -/
theorem plainNumber_cases (n : Number) :
    (∃ i : ℤ, n.value = i ∧ i.natAbs < 10 ^ 21 ∧ plainNumber n = toString i) ∨
    ∃ d : Double, n = .real d ∧
      ¬ (d.isIntegral = true ∧ d.magnitudeBelow (Nat.pow 10 21) = true) ∧
      plainNumber n = plainText d := by
  cases n with
  | integer i fits =>
    refine .inl ⟨i, rfl, ?_, rfl⟩
    obtain ⟨low, high⟩ := fits
    omega
  | real d =>
    by_cases plain : d.isIntegral = true ∧ d.magnitudeBelow (Nat.pow 10 21) = true
    · refine .inl ⟨d.truncate, Double.value_of_isIntegral plain.1, ?_, if_pos plain⟩
      have below := (Double.magnitudeBelow_iff d _).mp plain.2
      rw [Double.magnitude_of_value (Double.value_of_isIntegral plain.1)] at below
      exact_mod_cast below
    · exact .inr ⟨d, rfl, plain, if_neg plain⟩

/-- A number's text in a selector tells its value. -/
theorem value_of_plainNumber {n n' : Number} (same : plainNumber n = plainNumber n') :
    n.value = n'.value := by
  have read := congrArg (fun s : String => plainValue s.toList) same
  rcases plainNumber_cases n with ⟨i, value, small, text⟩ | ⟨d, rfl, plain, text⟩ <;>
    rcases plainNumber_cases n' with ⟨j, value', small', text'⟩ | ⟨d', rfl, plain', text'⟩ <;>
    simp only [text, text', plainValue_int, plainText_value] at read
  · rw [value, value', read]
  · exact absurd read.symm (shown_ne_small plain' small)
  · exact absurd read (shown_ne_small plain small')
  · exact shown_injective read

theorem plainNumber_isNumeral (n : Number) : ∀ c ∈ (plainNumber n).toList, isNumeral c = true := by
  rcases plainNumber_cases n with ⟨i, -, -, text⟩ | ⟨d, -, -, text⟩
  · rw [text]
    exact toString_isNumeral i
  · rw [text]
    exact plainText_isNumeral d

end Query
end PolicyLint
