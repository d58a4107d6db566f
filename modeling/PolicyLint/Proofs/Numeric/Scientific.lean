import PolicyLint.Proofs.Numeric.Plain
/-!
Numerals with a power of ten, read back. Main statement: the text that JSON has for a double is that of no
other double and of no integer.
-/
namespace PolicyLint.Numeric

/-- The whole number behind an exponent mark, which always has a sign. -/
def powerValue : List Char → ℤ
  | '-' :: digits => -(Nat.ofDigitChars 10 digits 0 : ℕ)
  | '+' :: digits => (Nat.ofDigitChars 10 digits 0 : ℕ)
  | _ => 0

/-- The number that digits with an optional point and an optional power of ten stand for. -/
def scaledValue (cs : List Char) : ℚ :=
  unsignedValue (cs.takeWhile (· ≠ 'e')) * 10 ^ powerValue ((cs.dropWhile (· ≠ 'e')).drop 1)

/-- A power of ten is written behind a mark, and only where there is one. -/
def powered : Option ℤ → List Char
  | none => []
  | some e => (if e < 0 then ['e', '-'] else ['e', '+']) ++ Nat.toDigits 10 e.natAbs

theorem powerValue_powered (power : Option ℤ) : powerValue ((powered power).drop 1) = power.getD 0 := by
  cases power with
  | none => rfl
  | some e =>
    by_cases below : e < 0 <;>
      simp only [powered, below, if_true, if_false, List.cons_append, List.nil_append,
        List.drop_succ_cons, List.drop_zero, powerValue, Nat.ofDigitChars_ten_toDigits, Option.getD_some] <;>
      omega

/-- The parts of an unsigned numeral that is not one of an integer: a fraction, a power of ten, or both. -/
structure Scientific where
  whole : List Char
  fraction : List Char
  power : Option ℤ
  begins : whole ≠ []
  digits : ∀ c ∈ whole ++ fraction, c.isDigit = true
  marked : fraction ≠ [] ∨ power.isSome

namespace Scientific

def text (n : Scientific) : List Char :=
  n.whole ++ pointed n.fraction ++ powered n.power

def value (n : Scientific) : ℚ :=
  Nat.ofDigitChars 10 (n.whole ++ n.fraction) 0 / 10 ^ n.fraction.length * 10 ^ n.power.getD 0

theorem mem_plain {n : Scientific} {c : Char} (member : c ∈ n.whole ++ pointed n.fraction) :
    c.isDigit = true ∨ c = '.' := by
  rcases List.mem_append.mp member with whole | fraction
  · exact .inl (n.digits c (List.mem_append_left _ whole))
  · rcases mem_pointed fraction with point | fraction
    · exact .inr point
    · exact .inl (n.digits c (List.mem_append_right _ fraction))

theorem scaledValue_text (n : Scientific) : scaledValue n.text = n.value := by
  have free : ∀ c ∈ n.whole ++ pointed n.fraction, decide (c ≠ 'e') = true := by
    intro c member
    rw [decide_eq_true_iff]
    rintro rfl
    rcases mem_plain member with digit | point
    · exact absurd digit (by decide)
    · exact absurd point (by decide)
  have begins : ∀ power, (powered power).takeWhile (· ≠ 'e') = [] ∧
      (powered power).dropWhile (· ≠ 'e') = powered power := by
    intro power
    cases power with
    | none => simp [powered]
    | some e => by_cases below : e < 0 <;> simp [powered, below]
  have digits : ∀ c ∈ n.whole, c.isDigit = true := fun c member => n.digits c (List.mem_append_left _ member)
  unfold scaledValue text value
  rw [List.takeWhile_append_of_pos free, List.dropWhile_append_of_pos free, (begins _).1, (begins _).2,
    List.append_nil, unsignedValue_pointed digits, powerValue_powered]

theorem head_text (n : Scientific) : ∃ c ∈ n.text.head?, c.isDigit = true := by
  obtain ⟨first, others, split⟩ := List.exists_cons_of_ne_nil n.begins
  have digit := n.digits first (by simp [split])
  exact ⟨first, by simp [text, split], digit⟩

theorem mark_mem_text (n : Scientific) : '.' ∈ n.text ∨ 'e' ∈ n.text := by
  rcases n.marked with fraction | power
  · exact .inl (by simp [text, pointed, fraction])
  · obtain ⟨e, given⟩ := Option.isSome_iff_exists.mp power
    by_cases below : e < 0 <;> exact .inr (by simp [text, given, powered, below])

end Scientific

theorem positional_some (digits : List Char) (e : ℤ) : (positional digits e).1 ≠ [] := by
  unfold positional
  split
  · exact List.cons_ne_nil _ _
  · refine List.ne_nil_of_length_pos ?_
    simp only [List.length_append, List.length_take, zeros, List.length_replicate]
    omega

/-- With a point in any case, be it before a zero. -/
theorem scientific_near {digits : List Char} (all : ∀ c ∈ digits, c.isDigit = true) (e : ℤ) :
    ∃ n : Scientific, n.text = (positional digits e).1 ++
        '.' :: (if (positional digits e).2 = [] then ['0'] else (positional digits e).2) ∧
      n.value = Nat.ofDigitChars 10 digits 0 * 10 ^ (e + 1 - digits.length) := by
  have nonempty := positional_some digits e
  obtain ⟨wholes, fractions⟩ := positional_isDigit all e
  have value := positional_value digits e
  generalize (positional digits e).1 = whole at nonempty wholes value ⊢
  generalize (positional digits e).2 = fraction at fractions value ⊢
  rw [← value]
  by_cases empty : fraction = []
  · subst empty
    refine ⟨⟨whole, ['0'], .none, nonempty, ?_, by simp⟩, by simp [Scientific.text, pointed, powered], ?_⟩
    · refine fun c member => (List.mem_append.mp member).elim (wholes c) fun zero => ?_
      rw [List.mem_singleton.mp zero]
      decide
    · simp [Scientific.value, Nat.ofDigitChars]
  · refine ⟨⟨whole, fraction, .none, nonempty, ?_, by simp [empty]⟩, ?_, by simp [Scientific.value]⟩
    · exact fun c member => (List.mem_append.mp member).elim (wholes c) (fractions c)
    · simp [Scientific.text, pointed, powered, empty]

/-- One digit before the point, and an exponent. -/
theorem scientific_far {digits : List Char} (nonempty : digits ≠ [])
    (all : ∀ c ∈ digits, c.isDigit = true) (e : ℤ) :
    ∃ n : Scientific, n.text = digits.take 1 ++ pointed (digits.drop 1) ++ powered (.some e) ∧
      n.value = Nat.ofDigitChars 10 digits 0 * 10 ^ (e + 1 - digits.length) := by
  have parts : digits.take 1 ++ digits.drop 1 = digits := List.take_append_drop 1 digits
  have begins : digits.take 1 ≠ [] := by simp [nonempty]
  refine ⟨⟨digits.take 1, digits.drop 1, .some e, begins, by rwa [parts], .inr rfl⟩, rfl, ?_⟩
  have length : ((digits.length - 1 : ℕ) : ℤ) = digits.length - 1 := by
    have := List.length_pos_of_ne_nil nonempty
    omega
  have exponent : e + 1 - digits.length = e - ((digits.length - 1 : ℕ) : ℤ) := by
    rw [length]
    ring
  simp only [Scientific.value, parts, List.length_drop, Option.getD_some]
  rw [exponent, zpow_sub₀ (by norm_num), zpow_natCast]
  ring

/-- The text without its sign. -/
theorem scientificText_eq (d : Double) : ∃ n : Scientific,
    (scientificText d).toList = sign d ++ n.text ∧ n.value = shownMagnitude d := by
  unfold scientificText shownMagnitude
  split
  · refine ⟨⟨['0'], ['0'], none, by simp, by simp, by simp⟩, by simp [Scientific.text, pointed, powered], ?_⟩
    norm_num [Scientific.value, Nat.ofDigitChars]
  rename_i nonzero
  have digits := significantDigits_isDigit (shortest d)
  have value := significantDigits_value (shortest d)
  have nonempty : significantDigits (shortest d) ≠ [] := by
    intro empty
    have nonzero : d.isZero = false := by simpa using nonzero
    have pos := (shortest_covers nonzero).pos nonzero
    rw [← value, empty] at pos
    simp [Nat.ofDigitChars] at pos
  by_cases near : -5 ≤ scientificExponent (shortest d) ∧ scientificExponent (shortest d) < 16
  · obtain ⟨n, text, same⟩ := scientific_near digits (scientificExponent (shortest d))
    refine ⟨n, ?_, same.trans value⟩
    rw [text]
    simp [near]
  · obtain ⟨n, text, same⟩ := scientific_far nonempty digits (scientificExponent (shortest d))
    refine ⟨n, ?_, same.trans value⟩
    rw [text]
    simp only [if_neg near, String.toList_ofList, powered, pointed]
    split <;> simp

/-- What JSON has for a double tells it from every other, and the zeros by their signs. -/
theorem scientificText_injective {d d' : Double} (same : scientificText d = scientificText d') : d = d' := by
  obtain ⟨n, text, value⟩ := scientificText_eq d
  obtain ⟨n', text', value'⟩ := scientificText_eq d'
  have same := congrArg String.toList same
  rw [text, text'] at same
  have unsigned : ∀ n : Scientific, n.text.head? ≠ some '-' := by
    intro n minus
    obtain ⟨c, first, digit⟩ := n.head_text
    obtain rfl := Option.some.inj (first.symm.trans minus)
    exact absurd digit (by decide)
  obtain ⟨signs, texts⟩ : d.negative = d'.negative ∧ n.text = n'.text := by
    unfold sign at same
    cases negative : d.negative <;> cases negative' : d'.negative <;>
      simp only [negative, negative', if_true, if_false, Bool.false_eq_true, List.nil_append,
        List.singleton_append, List.cons.injEq, true_and] at same
    · exact ⟨rfl, same⟩
    · exact absurd (congrArg List.head? same) (unsigned n)
    · exact absurd (congrArg List.head? same).symm (unsigned n')
    · exact ⟨rfl, same⟩
  have magnitudes : shownMagnitude d = shownMagnitude d' := by
    rw [← value, ← value', ← n.scaledValue_text, texts, n'.scaledValue_text]
  have covers := shownMagnitude_covers d
  rw [magnitudes] at covers
  obtain ⟨significands, exponents⟩ :=
    Double.parts_of_magnitude (covers.magnitude_unique (shownMagnitude_covers d'))
  obtain ⟨negative, significand, exponent, canonical⟩ := d
  obtain ⟨negative', significand', exponent', canonical'⟩ := d'
  rw [Double.mk.injEq]
  exact ⟨signs, significands, exponents⟩

/-! ### Where numerals end -/

/-- A character of a numeral, with a power of ten or without. -/
def isScientific (c : Char) : Bool :=
  isNumeral c || c = 'e' || c = '+'

theorem powered_isScientific (power : Option ℤ) : ∀ c ∈ powered power, isScientific c = true := by
  intro c member
  cases power with
  | none => exact absurd member List.not_mem_nil
  | some e =>
    rcases List.mem_append.mp member with mark | digit
    · have known : ∀ c ∈ ['e', '-', '+'], isScientific c = true := by simp [isScientific, isNumeral]
      have inside : (if e < 0 then ['e', '-'] else ['e', '+']) ⊆ ['e', '-', '+'] := by split <;> simp
      exact known c (inside mark)
    · have digit := Nat.isDigit_of_mem_toDigits (by decide) (by decide) digit
      simp [isScientific, isNumeral, digit]

theorem scientificText_isScientific (d : Double) :
    ∀ c ∈ (scientificText d).toList, isScientific c = true := by
  intro c member
  obtain ⟨n, text, -⟩ := scientificText_eq d
  rw [text, List.mem_append] at member
  rcases member with minus | unsigned
  · rw [mem_sign minus]
    decide
  · rcases List.mem_append.mp unsigned with plain | power
    · rcases Scientific.mem_plain plain with digit | rfl
      · simp [isScientific, isNumeral, digit]
      · decide
    · exact powered_isScientific n.power c power

/-- An integer is written with neither mark. -/
theorem scientificText_ne_toString (d : Double) (i : ℤ) : scientificText d ≠ toString i := by
  intro same
  obtain ⟨n, text, -⟩ := scientificText_eq d
  rw [same] at text
  have inside : ∀ c ∈ n.text, c.isDigit = true ∨ c = '-' := fun c member =>
    mem_toString (by rw [text]; exact List.mem_append_right _ member)
  rcases n.mark_mem_text with point | mark
  · exact absurd (inside _ point) (by decide)
  · exact absurd (inside _ mark) (by decide)

end PolicyLint.Numeric
