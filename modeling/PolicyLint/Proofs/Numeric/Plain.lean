import Mathlib.Data.List.TakeWhile
import PolicyLint.Proofs.Numeric.Rounding
/-!
Plain numerals, read back: digits with an optional sign and point. Main statement: the plain text of a
double stands for its shortest decimal, so it tells the double's value.
-/
namespace PolicyLint.Numeric

/-! ### Reading -/

/-- The number that digits with an optional point stand for. -/
def unsignedValue (cs : List Char) : ℚ :=
  let whole := cs.takeWhile (· ≠ '.')
  let fraction := (cs.dropWhile (· ≠ '.')).drop 1
  Nat.ofDigitChars 10 (whole ++ fraction) 0 / 10 ^ fraction.length

/-- The number that a plain numeral stands for. -/
def plainValue (cs : List Char) : ℚ :=
  if cs.head? = some '-' then -unsignedValue (cs.drop 1) else unsignedValue cs

/-- A fraction is written behind a point, and only where there is one. -/
def pointed (fraction : List Char) : List Char :=
  if fraction = [] then [] else '.' :: fraction

theorem unsignedValue_pointed {whole : List Char} (digits : ∀ c ∈ whole, c.isDigit = true)
    (fraction : List Char) : unsignedValue (whole ++ pointed fraction) =
      Nat.ofDigitChars 10 (whole ++ fraction) 0 / 10 ^ fraction.length := by
  have plain : ∀ c ∈ whole, decide (c ≠ '.') = true := by
    intro c member
    have := digits c member
    rw [decide_eq_true_iff]
    rintro rfl
    exact absurd this (by decide)
  unfold unsignedValue pointed
  split
  · rename_i empty
    rw [empty, List.append_nil, List.takeWhile_eq_self_iff.mpr plain,
      List.dropWhile_eq_nil_iff.mpr plain]
    simp
  · rw [List.takeWhile_append_of_pos plain, List.dropWhile_append_of_pos plain]
    simp

theorem unsignedValue_digits {cs : List Char} (digits : ∀ c ∈ cs, c.isDigit = true) :
    unsignedValue cs = Nat.ofDigitChars 10 cs 0 := by
  simpa [pointed] using unsignedValue_pointed digits []

theorem plainValue_unsigned {cs : List Char} (unsigned : cs.head? ≠ some '-') :
    plainValue cs = unsignedValue cs :=
  if_neg unsigned

theorem plainValue_minus (cs : List Char) : plainValue ('-' :: cs) = -unsignedValue cs :=
  if_pos rfl

theorem plainValue_int (i : ℤ) : plainValue (toString i).toList = i := by
  have digits : ∀ n : ℕ, ∀ c ∈ Nat.toDigits 10 n, c.isDigit = true := fun n c member =>
    Nat.isDigit_of_mem_toDigits (by decide) (by decide) member
  rw [Int.toString_eq_repr, Int.repr_eq_if]
  split
  · rename_i nonneg
    rw [Nat.toList_repr, plainValue_unsigned, unsignedValue_digits (digits _),
      Nat.ofDigitChars_ten_toDigits]
    · exact_mod_cast Int.toNat_of_nonneg nonneg
    · intro minus
      exact absurd (digits _ _ (List.mem_of_head? minus)) (by decide)
  · rename_i negative
    rw [String.toList_append, Nat.toList_repr, show "-".toList = ['-'] from rfl, List.singleton_append,
      plainValue_minus, unsignedValue_digits (digits _), Nat.ofDigitChars_ten_toDigits]
    have : ((-i).toNat : ℤ) = -i := Int.toNat_of_nonneg (by omega)
    have cast : (((-i).toNat : ℤ) : ℚ) = -i := by rw [this, Int.cast_neg]
    rw [← Int.cast_natCast, cast, neg_neg]

theorem toString_int_injective {i j : ℤ} (same : toString i = toString j) : i = j := by
  have values := congrArg (fun s : String => plainValue s.toList) same
  simp only [plainValue_int] at values
  exact_mod_cast values

/-! ### Writing -/

/-- A decimal's digits are its significant ones and zeros behind them. -/
theorem toDigits_eq_significant (n : Decimal) : ∃ zeros, Nat.toDigits 10 n.digits =
    significantDigits n ++ List.replicate zeros '0' := by
  let digits := Nat.toDigits 10 n.digits
  have zeros : ∀ c ∈ digits.reverse.takeWhile (· == '0'), c = '0' := fun c member => by
    simpa using List.mem_takeWhile_imp member
  refine ⟨(digits.reverse.takeWhile (· == '0')).length, ?_⟩
  rw [← List.reverse_inj, List.reverse_append, List.reverse_replicate,
    ← List.eq_replicate_of_mem zeros, significantDigits, List.reverse_reverse,
    List.takeWhile_append_dropWhile]

theorem significantDigits_isDigit (n : Decimal) : ∀ c ∈ significantDigits n, c.isDigit = true := by
  intro c member
  obtain ⟨zeros, same⟩ := toDigits_eq_significant n
  refine Nat.isDigit_of_mem_toDigits (b := 10) (n := n.digits) (by decide) (by decide) ?_
  rw [same]
  exact List.mem_append_left _ member

/-- The significant digits with the first one in its place. -/
theorem significantDigits_value (n : Decimal) : (Nat.ofDigitChars 10 (significantDigits n) 0 : ℚ) *
    10 ^ (scientificExponent n + 1 - (significantDigits n).length) = n.value := by
  obtain ⟨zeros, same⟩ := toDigits_eq_significant n
  have value := congrArg (Nat.ofDigitChars 10 · 0) same
  have length := congrArg List.length same
  simp only [Nat.ofDigitChars_ten_toDigits, Nat.ofDigitChars_append,
    Nat.ofDigitChars_replicate_zero] at value
  simp only [List.length_append, List.length_replicate] at length
  have exponent : scientificExponent n + 1 - (significantDigits n).length = zeros + n.exponent := by
    rw [scientificExponent, countDigits, length]
    push_cast
    ring
  rw [exponent, zpow_add₀ (by norm_num), zpow_natCast, Decimal.value, value]
  push_cast
  ring

theorem ofDigitChars_zeros (zeros : ℕ) (cs : List Char) :
    Nat.ofDigitChars 10 (List.replicate zeros '0' ++ cs) 0 = Nat.ofDigitChars 10 cs 0 := by
  rw [Nat.ofDigitChars_append, Nat.ofDigitChars_replicate_zero, Nat.mul_zero]

theorem positional_isDigit {digits : List Char} (all : ∀ c ∈ digits, c.isDigit = true) (e : ℤ) :
    (∀ c ∈ (positional digits e).1, c.isDigit = true) ∧
      ∀ c ∈ (positional digits e).2, c.isDigit = true := by
  have zero : ∀ n, ∀ c ∈ zeros n, c.isDigit = true := by
    intro n c member
    rw [List.eq_of_mem_replicate member]
    decide
  unfold positional
  split
  · refine ⟨fun c member => ?_, fun c member => ?_⟩
    · rw [List.mem_singleton.mp member]
      decide
    · exact (List.mem_append.mp member).elim (zero _ c) (all c)
  · refine ⟨fun c member => ?_, fun c member => all c (List.mem_of_mem_drop member)⟩
    exact (List.mem_append.mp member).elim (fun h => all c (List.mem_of_mem_take h)) (zero _ c)

/-- Wherever the point falls, the digits keep their places. -/
theorem positional_value (digits : List Char) (e : ℤ) :
    (Nat.ofDigitChars 10 ((positional digits e).1 ++ (positional digits e).2) 0 : ℚ) /
        10 ^ (positional digits e).2.length =
      Nat.ofDigitChars 10 digits 0 * 10 ^ (e + 1 - digits.length) := by
  have ten : (10 : ℚ) ≠ 0 := by norm_num
  unfold positional
  split
  · rename_i small
    have exponent : e + 1 - digits.length = -((((-e - 1).toNat + digits.length : ℕ)) : ℤ) := by
      push_cast
      omega
    have lead : ['0'] ++ (zeros (-e - 1).toNat ++ digits) =
        List.replicate ((-e - 1).toNat + 1) '0' ++ digits := by
      simp [zeros, List.replicate_succ]
    rw [lead, ofDigitChars_zeros, exponent, zpow_neg, zpow_natCast, zeros, List.length_append,
      List.length_replicate, div_eq_mul_inv]
  · rename_i large
    dsimp only
    rcases Nat.le_total digits.length (e.toNat + 1) with short | long
    · rw [List.take_of_length_le short, List.drop_of_length_le short, List.append_nil, zeros,
        Nat.ofDigitChars_append, Nat.ofDigitChars_replicate_zero]
      have exponent : e + 1 - digits.length = ((e.toNat + 1 - digits.length : ℕ) : ℤ) := by omega
      rw [exponent, zpow_natCast]
      push_cast
      simp [mul_comm]
    · have zero : e.toNat + 1 - digits.length = 0 := by omega
      have exponent : e + 1 - digits.length = -((digits.length - (e.toNat + 1) : ℕ) : ℤ) := by omega
      rw [zero, zeros, List.replicate_zero, List.append_nil, List.take_append_drop, List.length_drop,
        exponent, zpow_neg, zpow_natCast, div_eq_mul_inv]

/-- The magnitude that the text of a double stands for. -/
def shownMagnitude (d : Double) : ℚ :=
  if d.isZero then 0 else (shortest d).value

theorem shownMagnitude_covers (d : Double) : d.Covers (shownMagnitude d) := by
  unfold shownMagnitude
  split
  · rename_i zero
    rw [← (Double.magnitude_eq_zero_iff d).mpr zero]
    exact d.covers_magnitude
  · rename_i nonzero
    exact shortest_covers (by simpa using nonzero)

theorem shownMagnitude_nonneg (d : Double) : 0 ≤ shownMagnitude d := by
  unfold shownMagnitude
  split
  · exact le_rfl
  · rename_i nonzero
    have nonzero : d.isZero = false := by simpa using nonzero
    exact ((shortest_covers nonzero).pos nonzero).le

theorem shownMagnitude_eq_zero_iff (d : Double) : shownMagnitude d = 0 ↔ d.magnitude = 0 := by
  rw [Double.magnitude_eq_zero_iff]
  unfold shownMagnitude
  split
  · simp [*]
  · rename_i nonzero
    have nonzero : d.isZero = false := by simpa using nonzero
    simp [nonzero, ((shortest_covers nonzero).pos nonzero).ne']

/-- The number that the text of a double stands for. -/
def shown (d : Double) : ℚ :=
  if d.negative then -shownMagnitude d else shownMagnitude d

/-- The text without its sign, in its two parts. -/
theorem plainText_eq (d : Double) : ∃ whole fraction,
    (∀ c ∈ whole, c.isDigit = true) ∧ (∀ c ∈ fraction, c.isDigit = true) ∧
    (plainText d).toList = sign d ++ (whole ++ pointed fraction) ∧
    (Nat.ofDigitChars 10 (whole ++ fraction) 0 : ℚ) / 10 ^ fraction.length = shownMagnitude d := by
  unfold plainText shownMagnitude
  split
  · exact ⟨['0'], [], by simp, nofun, by simp [pointed], by norm_num [Nat.ofDigitChars]⟩
  · let n := shortest d
    let parts := positional (significantDigits n) (scientificExponent n)
    obtain ⟨whole, fraction⟩ :=
      positional_isDigit (significantDigits_isDigit n) (scientificExponent n)
    refine ⟨parts.1, parts.2, whole, fraction, by simp [pointed, parts, n], ?_⟩
    rw [positional_value, significantDigits_value]

theorem mem_pointed {fraction : List Char} {c : Char} (member : c ∈ pointed fraction) :
    c = '.' ∨ c ∈ fraction := by
  unfold pointed at member
  split at member
  · exact absurd member List.not_mem_nil
  · exact List.mem_cons.mp member

theorem plainText_value (d : Double) : plainValue (plainText d).toList = shown d := by
  obtain ⟨whole, fraction, digits, digits', text, value⟩ := plainText_eq d
  rw [text, shown, ← value, ← unsignedValue_pointed digits]
  unfold sign
  split
  · exact plainValue_minus _
  · rw [List.nil_append]
    refine plainValue_unsigned fun minus => ?_
    rcases List.mem_append.mp (List.mem_of_head? minus) with member | member
    · exact absurd (digits _ member) (by decide)
    · rcases mem_pointed member with point | member
      · exact absurd point (by decide)
      · exact absurd (digits' _ member) (by decide)

theorem mem_sign {d : Double} {c : Char} (member : c ∈ sign d) : c = '-' := by
  unfold sign at member
  split at member
  · exact List.mem_singleton.mp member
  · exact absurd member List.not_mem_nil

/-- A character of a plain numeral. -/
def isNumeral (c : Char) : Bool :=
  c.isDigit || c = '-' || c = '.'

theorem plainText_isNumeral (d : Double) : ∀ c ∈ (plainText d).toList, isNumeral c = true := by
  intro c member
  obtain ⟨whole, fraction, digits, digits', text, -⟩ := plainText_eq d
  rw [text, List.mem_append, List.mem_append] at member
  rcases member with minus | member | member
  · rw [mem_sign minus]
    decide
  · simp [isNumeral, digits c member]
  · rcases mem_pointed member with rfl | member
    · decide
    · simp [isNumeral, digits' c member]

theorem mem_toString {i : ℤ} {c : Char} (member : c ∈ (toString i).toList) :
    c.isDigit = true ∨ c = '-' := by
  have digit : ∀ n : ℕ, c ∈ Nat.toDigits 10 n → c.isDigit = true := fun n member =>
    Nat.isDigit_of_mem_toDigits (by decide) (by decide) member
  rw [Int.toString_eq_repr, Int.repr_eq_if] at member
  split at member
  · exact .inl (digit _ (Nat.toList_repr ▸ member))
  · rw [String.toList_append, Nat.toList_repr, List.mem_append] at member
    rcases member with minus | member
    · exact .inr (List.mem_singleton.mp minus)
    · exact .inl (digit _ member)

theorem toString_isNumeral (i : ℤ) : ∀ c ∈ (toString i).toList, isNumeral c = true := by
  intro c member
  rcases mem_toString member with digit | rfl
  · simp [isNumeral, digit]
  · decide

theorem abs_shown (d : Double) : |shown d| = shownMagnitude d :=
  abs_signed (shownMagnitude_nonneg d) d.negative

/-- What the text of a double stands for tells the double's value. -/
theorem shown_injective {d d' : Double} (same : shown d = shown d') : d.value = d'.value := by
  have shown : shownMagnitude d = shownMagnitude d' := by rw [← abs_shown d, same, abs_shown]
  have covers := shownMagnitude_covers d
  rw [shown] at covers
  have magnitude := covers.magnitude_unique (shownMagnitude_covers d')
  by_cases signs : d.negative = d'.negative
  · rw [Double.value, Double.value, magnitude, signs]
  · -- Numbers of different signs are equal only where both are zero.
    have zero : d.magnitude = 0 := by
      rw [← shownMagnitude_eq_zero_iff]
      unfold Numeric.shown at same
      rw [← shown] at same
      cases negative : d.negative <;> cases negative' : d'.negative <;>
        simp only [negative, negative', if_true, if_false, Bool.false_eq_true] at same signs
      · exact absurd trivial signs
      · linarith
      · linarith
      · exact absurd trivial signs
    simp [Double.value, ← magnitude, zero]

end PolicyLint.Numeric
