import PolicyLint.Proofs.Text.Reading
import PolicyLint.Document.Token
/-!
The lexemes of JSON: all ways to write a string or a number, and what is written. Main statements: every
lexeme is read up to its end, whatever follows it, and what is read is what was written.
-/
namespace PolicyLint.Document

/-! ### Gaps -/

/-- White space between lexemes. -/
abbrev Gap := { cs : List Char // ∀ c ∈ cs, isGap c = true }

theorem tokens_gap (gap : Gap) (offset : Nat) (rest : List Char) :
    tokens offset (gap.1 ++ rest) = tokens (offset + gap.1.length) rest := by
  obtain ⟨gap, all⟩ := gap
  induction gap generalizing offset with
  | nil => rfl
  | cons c gap ih =>
    obtain ⟨here, later⟩ := List.forall_mem_cons.mp all
    rw [List.cons_append, tokens, if_pos here, ih _ later, List.length_cons, Nat.add_right_comm,
      Nat.add_assoc]

/-! ### Strings -/

/-- A hexadecimal digit. -/
abbrev Hex := { c : Char // (hexValue? c).isSome }

def Hex.value (h : Hex) : Nat :=
  (hexValue? h.1).get h.2

/-- The digits of an escape. -/
structure Code where
  a : Hex
  b : Hex
  c : Hex
  d : Hex

namespace Code

def digits (u : Code) : List Char :=
  [u.a.1, u.b.1, u.c.1, u.d.1]

def escape (u : Code) : List Char :=
  '\\' :: 'u' :: u.digits

def value (u : Code) : Nat :=
  ((u.a.value * 16 + u.b.value) * 16 + u.c.value) * 16 + u.d.value

/-- The first half of a pair of surrogates. -/
abbrev IsHigh (u : Code) : Prop :=
  0xD800 ≤ u.value ∧ u.value ≤ 0xDBFF

abbrev IsLow (u : Code) : Prop :=
  0xDC00 ≤ u.value ∧ u.value ≤ 0xDFFF

end Code

inductive Letter where
  | plain (c : { c : Char // c ≠ '"' ∧ c ≠ '\\' ∧ ¬ c.toNat < 0x20 })
  | escape (c : { c : Char // (simpleEscape? c).isSome })
  | code (u : Code)

def Letter.text : Letter → List Char
  | .plain c => [c.1]
  | .escape c => ['\\', c.1]
  | .code u => u.escape

def lettersText (letters : List Letter) : List Char :=
  letters.flatMap Letter.text

theorem lettersText_cons (letter : Letter) (letters : List Letter) :
    lettersText (letter :: letters) = letter.text ++ lettersText letters :=
  List.flatMap_cons

/-- The characters that are written; a surrogate without the other half is none. -/
def spelled? : List Letter → Option (List Char)
  | [] => some []
  | .plain c :: rest => (c.1 :: ·) <$> spelled? rest
  | .escape c :: rest => ((simpleEscape? c.1).get c.2 :: ·) <$> spelled? rest
  | .code high :: .code low :: rest =>
    if high.IsHigh ∧ low.IsLow then (pairedChar high.value low.value :: ·) <$> spelled? rest
    else if high.IsHigh ∨ high.IsLow then none
    else (Char.ofNat high.value :: ·) <$> spelled? (.code low :: rest)
  | .code u :: rest =>
    if u.IsHigh ∨ u.IsLow then none else (Char.ofNat u.value :: ·) <$> spelled? rest

theorem Hex.utf8Size (h : Hex) : h.1.utf8Size = 1 := by
  obtain ⟨c, digit⟩ := h
  have ascii {last : Char} (below : c ≤ last) (small : last.val ≤ 127) : c.utf8Size = 1 :=
    Char.utf8Size_eq_one_iff.mpr (UInt32.le_trans below small)
  unfold hexValue? at digit
  split at digit
  · rename_i decimal
    exact ascii decimal.2 (by decide)
  split at digit
  · rename_i lower
    exact ascii lower.2 (by decide)
  split at digit
  · rename_i upper
    exact ascii upper.2 (by decide)
  · cases digit

theorem Hex.hexValue? (h : Hex) : Document.hexValue? h.1 = some h.value :=
  (Option.some_get h.2).symm

theorem readHex_digits (u : Code) (offset : Nat) (rest : List Char) :
    readHex offset (u.digits ++ rest) = .ok u.value := by
  have four : (u.digits ++ rest).take 4 = u.digits := by simp [Code.digits]
  have bytes : byteCount u.digits = 4 := by simp [byteCount, Code.digits, Hex.utf8Size]
  have values : u.digits.mapM hexValue? = some [u.a.value, u.b.value, u.c.value, u.d.value] := by
    simp [Code.digits, Hex.hexValue?]
  rw [readHex, four, bytes, values]
  rfl

/-- A string is passed over up to its closing quote. -/
theorem skipString_letters (letters : List Letter) (offset : Nat) (rest : List Char) :
    ∃ stop, skipString offset (lettersText letters ++ '"' :: rest) = .ok (stop, rest) := by
  induction letters generalizing offset with
  | nil => exact ⟨offset + 1, by simp [lettersText, skipString]⟩
  | cons letter letters ih =>
    rw [lettersText_cons, List.append_assoc]
    cases letter with
    | plain c =>
      obtain ⟨c, noQuote, noEscape, visible⟩ := c
      obtain ⟨stop, passed⟩ := ih (offset + c.utf8Size)
      refine ⟨stop, ?_⟩
      simp [Letter.text, skipString, noEscape, visible, passed]
    | escape c =>
      obtain ⟨c, known⟩ := c
      obtain ⟨stop, passed⟩ := ih (offset + 2)
      have other : c ≠ 'u' := by
        rintro rfl
        exact absurd known (by decide)
      refine ⟨stop, ?_⟩
      simp [Letter.text, skipString, known, passed]
    | code u =>
      obtain ⟨stop, passed⟩ := ih (offset + 6)
      refine ⟨stop, ?_⟩
      have hex : readHex (offset + 2) (u.a.1 :: u.b.1 :: u.c.1 :: u.d.1 ::
          (lettersText letters ++ '"' :: rest)) = .ok u.value := readHex_digits u _ _
      simp [Letter.text, Code.escape, Code.digits, skipString, hex, passed]

theorem toOption_map (f : α → β) (step : Except ε α) : (f <$> step).toOption = f <$> step.toOption := by
  cases step <;> rfl

/-- The letters do not begin with the second half of a pair. -/
def NoLow (letters : List Letter) : Prop :=
  ∀ u rest, letters = .code u :: rest → ¬ u.IsLow

theorem readLowSurrogate_low {u : Code} (low : u.IsLow) (offset : Nat) (rest : List Char) :
    readLowSurrogate offset (u.escape ++ rest) = .ok u.value := by
  have hex := readHex_digits u (offset + 2) rest
  simp only [Code.escape, List.cons_append, readLowSurrogate, hex]
  exact if_pos low

theorem readLowSurrogate_noLow {letters : List Letter} (other : NoLow letters) (offset : Nat)
    (rest : List Char) :
    ∃ fault, readLowSurrogate offset (lettersText letters ++ '"' :: rest) = .error fault := by
  match letters with
  | [] => exact ⟨_, rfl⟩
  | .plain ⟨c, _, noEscape, _⟩ :: letters =>
    exact ⟨⟨.unfinishedSurrogate, offset + 1⟩,
      by simp [lettersText, Letter.text, readLowSurrogate, noEscape]⟩
  | .escape ⟨c, known⟩ :: letters =>
    have noCode : c ≠ 'u' := by
      rintro rfl
      exact absurd known (by decide)
    exact ⟨⟨.unfinishedSurrogate, offset + 2⟩,
      by simp [lettersText, Letter.text, readLowSurrogate, noCode]⟩
  | .code u :: letters =>
    have hex := readHex_digits u (offset + 2) (lettersText letters ++ '"' :: rest)
    refine ⟨⟨.loneSurrogate, offset + 6⟩, ?_⟩
    rw [lettersText_cons, List.append_assoc]
    simp only [Letter.text, Code.escape, List.cons_append, readLowSurrogate, hex]
    exact if_neg (other u letters rfl)

/-- What an escape is read as, but for what is to be done with the rest. -/
theorem readString_escape (u : Code) (offset : Nat) (rest : List Char) :
    readString offset (u.escape ++ rest) =
      if u.IsLow then .error ⟨.loneSurrogate, offset + 6⟩
      else if u.IsHigh then
        match readLowSurrogate (offset + 6) rest with
        | .error fault => .error fault
        | .ok low =>
          match rest with
          | _ :: _ :: _ :: _ :: _ :: _ :: rest =>
            (pairedChar u.value low :: ·) <$> readString (offset + 12) rest
          | _ => .error ⟨.eofInString, offset + 6⟩
      else (Char.ofNat u.value :: ·) <$> readString (offset + 6) rest := by
  have hex : readHex (offset + 2) (u.a.1 :: u.b.1 :: u.c.1 :: u.d.1 :: rest) = .ok u.value :=
    readHex_digits u _ _
  show readString offset ('\\' :: 'u' :: u.a.1 :: u.b.1 :: u.c.1 :: u.d.1 :: rest) = _
  rw [readString]
  generalize readHex (offset + 2) (u.a.1 :: u.b.1 :: u.c.1 :: u.d.1 :: rest) = code at hex ⊢
  subst hex
  rfl

theorem readString_pair {high low : Code} (isHigh : high.IsHigh) (isLow : low.IsLow) (offset : Nat)
    (rest : List Char) :
    readString offset (high.escape ++ (low.escape ++ rest)) =
      (pairedChar high.value low.value :: ·) <$> readString (offset + 12) rest := by
  rw [readString_escape, if_neg (by omega), if_pos isHigh, readLowSurrogate_low isLow]
  rfl

theorem readString_half {u : Code} (half : u.IsHigh ∨ u.IsLow) {letters : List Letter}
    (other : ¬ u.IsLow → NoLow letters) (offset : Nat) (rest : List Char) :
    (readString offset (u.escape ++ (lettersText letters ++ '"' :: rest))).toOption = none := by
  rw [readString_escape]
  by_cases isLow : u.IsLow
  · rw [if_pos isLow]
    rfl
  · obtain ⟨fault, torn⟩ := readLowSurrogate_noLow (other isLow) (offset + 6) rest
    rw [if_neg isLow, if_pos (half.resolve_right isLow), torn]
    rfl

theorem readString_whole {u : Code} (whole : ¬ (u.IsHigh ∨ u.IsLow)) (offset : Nat) (rest : List Char) :
    readString offset (u.escape ++ rest) = (Char.ofNat u.value :: ·) <$> readString (offset + 6) rest := by
  rw [readString_escape, if_neg (not_or.mp whole).2, if_neg (not_or.mp whole).1]

/-- The characters of a string are those that are written. -/
theorem readString_letters (letters : List Letter) (offset : Nat) (rest : List Char) :
    (readString offset (lettersText letters ++ '"' :: rest)).toOption = spelled? letters := by
  fun_induction spelled? letters generalizing offset with
  | case1 => rfl
  | case2 c letters ih =>
    obtain ⟨c, noQuote, noEscape, visible⟩ := c
    rw [← ih (offset + c.utf8Size), ← toOption_map]
    simp [lettersText, Letter.text, readString, noEscape, visible]
  | case3 c letters ih =>
    obtain ⟨c, known⟩ := c
    obtain ⟨e, stands⟩ := Option.isSome_iff_exists.mp known
    have noCode : c ≠ 'u' := by
      rintro rfl
      exact absurd known (by decide)
    rw [← ih (offset + 2), ← toOption_map, lettersText_cons, List.append_assoc]
    simp only [Letter.text, List.cons_append, List.nil_append]
    rw [readString]
    · simp only [stands, Option.get_some]
    · exact noCode
  | case4 high low letters pair ih =>
    rw [lettersText_cons, lettersText_cons, List.append_assoc, List.append_assoc]
    refine (congrArg Except.toOption (readString_pair pair.1 pair.2 offset _)).trans ?_
    rw [toOption_map, ih]
  | case5 high low letters noPair half =>
    rw [lettersText_cons, List.append_assoc]
    refine readString_half half (fun noLow u rest same => ?_) offset rest
    obtain ⟨same, -⟩ := List.cons.inj same
    obtain rfl := Letter.code.inj same
    exact fun isLow => noPair ⟨half.resolve_right noLow, isLow⟩
  | case6 high low letters noPair whole ih =>
    rw [lettersText_cons, List.append_assoc]
    refine (congrArg Except.toOption (readString_whole whole offset _)).trans ?_
    rw [toOption_map, ih]
  | case7 u letters noCode half =>
    rw [lettersText_cons, List.append_assoc]
    exact readString_half half (fun _ u rest same => (noCode u rest same).elim) offset rest
  | case8 u letters noCode whole ih =>
    rw [lettersText_cons, List.append_assoc]
    refine (congrArg Except.toOption (readString_whole whole offset _)).trans ?_
    rw [toOption_map, ih]

/-! ### Numbers -/

/-- One digit or more. -/
abbrev Digits := { cs : List Char // cs ≠ [] ∧ ∀ c ∈ cs, isDigit c = true }

structure Exponent where
  mark : { c : Char // isExponentMark c = true }
  /-- The sign, if there is one. -/
  sign : Option Bool
  digits : Digits

/-- Only zero itself begins with a zero. -/
structure Numeral where
  negative : Bool
  whole : { ds : Digits // ds.1.head? = some '0' → ds.1 = ['0'] }
  fraction : Option Digits
  exponent : Option Exponent

def Exponent.text (e : Exponent) : List Char :=
  e.mark.1 :: ((e.sign.map fun down => if down then '-' else '+').toList ++ e.digits.1)

namespace Numeral

def fractionText (n : Numeral) : List Char :=
  (n.fraction.map fun digits => '.' :: digits.1).getD []

def exponentText (n : Numeral) : List Char :=
  (n.exponent.map Exponent.text).getD []

/-- What stands behind the sign. -/
def unsigned (n : Numeral) : List Char :=
  n.whole.1.1 ++ (n.fractionText ++ n.exponentText)

def text (n : Numeral) : List Char :=
  (if n.negative then ['-'] else []) ++ n.unsigned

/-- The natural number that is written in digits only. -/
def natural? (n : Numeral) : Option Nat :=
  if n.negative = false ∧ n.fraction = none ∧ n.exponent = none then
    some (n.whole.1.1.foldl (fun value d => value * 10 + digitValue d) 0)
  else none

/-- The number that is read is a natural number where one of 64 bits is written in digits only. -/
def Counts (n : Numeral) (value : Except Fault Number) : Prop :=
  ∀ k : Nat, (∃ fits, value = .ok (.integer k fits)) ↔ n.natural? = some k ∧ k < 18446744073709551616

end Numeral

/-- A character with which a number may go on. -/
def inNumeral (c : Char) : Bool :=
  isDigit c || c = '.' || isExponentMark c

theorem le_foldl_digits (digits : List Char) (acc : Nat) :
    acc ≤ digits.foldl (fun value d => value * 10 + digitValue d) acc := by
  induction digits generalizing acc with
  | nil => exact Nat.le_refl _
  | cons d digits ih =>
    have step := ih (acc * 10 + digitValue d)
    rw [List.foldl_cons]
    omega

/-- Digits are taken in as long as their value fits, and if it does not, some are left over. -/
theorem absorb_digits (digits : List Char) (acc : Nat) (small : acc < 18446744073709551616) :
    let value := digits.foldl (fun value d => value * 10 + digitValue d) acc
    value < 18446744073709551616 ∧ absorb acc digits = (value, []) ∨
      18446744073709551616 ≤ value ∧ (absorb acc digits).2 ≠ [] := by
  induction digits generalizing acc with
  | nil => exact .inl ⟨small, rfl⟩
  | cons d digits ih =>
    by_cases fits : acc * 10 + digitValue d < 18446744073709551616
    · simp only [absorb, List.foldl_cons, if_pos fits]
      exact ih _ fits
    · have beyond := le_foldl_digits digits (acc * 10 + digitValue d)
      refine .inr ⟨?_, ?_⟩
      · rw [List.foldl_cons]
        omega
      · simp only [absorb, if_neg fits]
        exact List.cons_ne_nil _ _

/-- A number that is no natural one. -/
def NoNatural (number : Number) : Prop :=
  ∀ (k : Nat) fits, number ≠ .integer k fits

theorem noNatural_real (d : Double) : NoNatural (.real d) := by
  intro k fits same
  cases same

theorem realNumber_noNatural {negative : Bool} {whole fraction : List Char} {exponent : Int}
    {number : Number} (read : realNumber negative whole fraction exponent = some number) :
    NoNatural number := by
  obtain ⟨d, -, read⟩ := Option.bind_eq_some_iff.mp read
  obtain ⟨d, -, rfl⟩ := Option.map_eq_some_iff.mp read
  exact noNatural_real _

theorem integerNumber_noNatural {negative : Bool} {digits : List Char}
    (other : negative = true ∨ (absorb 0 digits).2 ≠ []) {number : Number}
    (read : integerNumber negative digits = some number) : NoNatural number := by
  unfold integerNumber at read
  dsimp only at read
  split at read
  · obtain rfl := Option.some.inj read
    exact noNatural_real _
  rename_i noZero
  split at read
  · rename_i number' left fits
    obtain rfl := Option.some.inj read
    have minus : negative = true := other.resolve_right (not_not_intro left)
    subst minus
    rintro k fits' rfl
    obtain ⟨word, same⟩ : ∃ word, some (Number.integer (Double.apply true (absorb 0 digits).1) word) =
        some (Number.integer k fits') := by
      unfold Number.ofInt? at fits
      split at fits
      · exact ⟨_, fits⟩
      · cases fits
    have equal : -((absorb 0 digits).1 : Int) = k := by
      injection same with same
      injection same
    simp only [true_and] at noZero
    omega
  · obtain ⟨d, -, read⟩ := Option.bind_eq_some_iff.mp read
    obtain ⟨d, -, rfl⟩ := Option.map_eq_some_iff.mp read
    exact noNatural_real _

theorem integerNumber_digits {digits : List Char} {value : Nat} (small : value < 18446744073709551616)
    (absorbed : absorb 0 digits = (value, [])) :
    ∃ fits, integerNumber false digits = some (.integer value fits) := by
  have word : Number.IsWord (value : Int) := ⟨by omega, by omega⟩
  have integer : Number.ofInt? (Double.apply false value) = some (.integer value word) := dif_pos word
  refine ⟨word, ?_⟩
  simp only [integerNumber, absorbed, integer, Bool.false_eq_true, false_and, if_false]

/-- What a number is read as; a double that is too large is none. -/
def inRange (stop : Nat) (value : Option Number) : Except Fault Number :=
  match value with
  | some number => .ok number
  | none => .error ⟨.numberOutOfRange, stop⟩

namespace Numeral

/-- A number that is no natural one is read where more than digits is written. -/
theorem counts_of_noNatural {n : Numeral} (large : ∀ k, n.natural? = some k → 18446744073709551616 ≤ k)
    {value : Except Fault Number}
    (other : ∀ number, value = .ok number → NoNatural number) : n.Counts value := by
  intro k
  constructor
  · rintro ⟨fits, read⟩
    exact absurd rfl (other _ read k fits)
  · rintro ⟨written, small⟩
    exact absurd small (Nat.not_lt.mpr (large k written))

/-- A number that is no natural one is read where more than digits is written. -/
theorem counts_of {n : Numeral} (large : ∀ k, n.natural? = some k → 18446744073709551616 ≤ k)
    {value : Option Number} (other : ∀ number, value = some number → NoNatural number) (stop : Nat) :
    n.Counts (inRange stop value) := by
  refine counts_of_noNatural large fun number read => ?_
  cases value with
  | none => cases read
  | some n => exact Except.ok.inj read ▸ other n rfl

theorem counts_integer (n : Numeral) (plain : n.fraction = none ∧ n.exponent = none) (stop : Nat) :
    n.Counts (inRange stop (integerNumber n.negative n.whole.1.1)) := by
  obtain ⟨negative, whole, fraction, exponent⟩ := n
  obtain ⟨rfl, rfl⟩ := plain
  cases negative with
  | true =>
    refine counts_of (fun k written => ?_) (fun _ => integerNumber_noNatural (.inl rfl)) stop
    simp [natural?] at written
  | false =>
    rcases absorb_digits whole.1.1 0 (by decide) with ⟨small, absorbed⟩ | ⟨large, left⟩
    · obtain ⟨word, read⟩ := integerNumber_digits small absorbed
      rw [read]
      intro k
      simp only [natural?, and_self, if_true]
      constructor
      · rintro ⟨fits, same⟩
        have equal : ((whole.1.1.foldl (fun value d => value * 10 + digitValue d) 0 : Nat) : Int) = k := by
          injection same with same
          injection same
        exact ⟨congrArg some (Int.ofNat_inj.mp equal), Int.ofNat_inj.mp equal ▸ small⟩
      · rintro ⟨same, -⟩
        obtain rfl := Option.some.inj same
        exact ⟨word, rfl⟩
    · refine counts_of (fun k written => ?_) (fun _ => integerNumber_noNatural (.inr left)) stop
      simp only [natural?, and_self, if_true] at written
      obtain rfl := Option.some.inj written
      exact large

end Numeral

theorem scanPower_digits (negative : Bool) (whole fraction : List Char) (down : Bool) (offset : Nat)
    (digits : Digits) {rest : List Char} (ends : ∀ c ∈ rest.head?, isDigit c = false) :
    ∃ scan, scanPower negative whole fraction down offset (digits.1 ++ rest) = .ok scan ∧
      scan.rest = rest ∧ ∀ number, scan.value = .ok number → NoNatural number := by
  have taken := Text.takeWhile_run digits.2.2 ends
  have left := Text.dropWhile_run digits.2.2 ends
  unfold scanPower
  simp only [taken, left, if_neg digits.2.1]
  refine ⟨_, rfl, rfl, fun number read => ?_⟩
  dsimp only at read
  split at read
  · split at read
    · obtain rfl := Except.ok.inj read
      exact noNatural_real _
    · cases read
  · split at read
    · obtain rfl := Except.ok.inj read
      exact realNumber_noNatural ‹_›
    · cases read

theorem scanExponent_text (negative : Bool) (whole fraction : List Char) (offset : Nat) (e : Exponent)
    {rest : List Char} (ends : ∀ c ∈ rest.head?, isDigit c = false) :
    ∃ scan, scanExponent negative whole fraction offset (e.text.tail ++ rest) = .ok scan ∧
      scan.rest = rest ∧ ∀ number, scan.value = .ok number → NoNatural number := by
  obtain ⟨mark, sign, digits⟩ := e
  match sign with
  | some true => exact scanPower_digits negative whole fraction true (offset + 1) digits ends
  | some false => exact scanPower_digits negative whole fraction false (offset + 1) digits ends
  | none =>
    -- No digit is a sign.
    have begins : ∀ c ∈ (digits.1 ++ rest).head?, isDigit c = true := by
      obtain ⟨first, others, split⟩ := List.exists_cons_of_ne_nil digits.2.1
      have digit := digits.2.2 first (by rw [split]; exact List.mem_cons_self)
      simpa [split] using digit
    show ∃ scan, scanExponent negative whole fraction offset (digits.1 ++ rest) = .ok scan ∧ _
    unfold scanExponent
    split
    · rename_i same
      exact absurd (begins '-' (by rw [same]; rfl)) (by decide)
    · rename_i same
      exact absurd (begins '+' (by rw [same]; rfl)) (by decide)
    · exact scanPower_digits negative whole fraction false offset digits ends

/-- The digits before the point are all that stand there; behind a zero there are none. -/
theorem whole_taken (whole : { ds : Digits // ds.1.head? = some '0' → ds.1 = ['0'] }) (after : List Char)
    (ends : ∀ c ∈ after.head?, isDigit c = false) :
    (if (whole.1.1 ++ after).head? = some '0' then ['0'] else (whole.1.1 ++ after).takeWhile isDigit) =
      whole.1.1 := by
  have first : (whole.1.1 ++ after).head? = whole.1.1.head? := List.head?_append_of_ne_nil _ whole.1.2.1
  split
  · rename_i zero
    exact (whole.2 (first.symm.trans zero)).symm
  · exact Text.takeWhile_run whole.1.2.2 ends

theorem mark_noDigit {c : Char} (mark : isExponentMark c = true) : isDigit c = false ∧ c ≠ '.' := by
  have letter : c = 'e' ∨ c = 'E' := by simpa [isExponentMark] using mark
  rcases letter with rfl | rfl <;> exact ⟨by decide, by decide⟩

/-- A text with which no number goes on. -/
def Ends (rest : List Char) : Prop :=
  ∀ c ∈ rest.head?, inNumeral c = false

theorem Ends.stop {rest : List Char} (ends : Ends rest) :
    ∀ c ∈ rest.head?, isDigit c = false ∧ c ≠ '.' ∧ isExponentMark c = false := by
  intro c first
  simpa [inNumeral, and_assoc] using ends c first

theorem Ends.noDigit {rest : List Char} (ends : Ends rest) : ∀ c ∈ rest.head?, isDigit c = false :=
  fun c first => (ends.stop c first).1

/-- The number is read up to its end, from behind its sign. -/
def Numeral.Scans (n : Numeral) (offset : Nat) (rest : List Char) : Prop :=
  ∃ scan, scanNumber n.negative offset (n.unsigned ++ rest) = .ok scan ∧ scan.rest = rest ∧
    n.Counts scan.value

section Scans

variable (negative : Bool) (whole : { ds : Digits // ds.1.head? = some '0' → ds.1 = ['0'] }) (digits : Digits)
  (e : Exponent) (offset : Nat) {rest : List Char}

theorem scans_whole (ends : Ends rest) : (Numeral.mk negative whole none none).Scans offset rest := by
  have taken := whole_taken whole rest ends.noDigit
  have counts := Numeral.counts_integer ⟨negative, whole, none, none⟩ ⟨rfl, rfl⟩ (offset + whole.1.1.length)
  have text : (Numeral.mk negative whole none none).unsigned ++ rest = whole.1.1 ++ rest := by
    simp [Numeral.unsigned, Numeral.fractionText, Numeral.exponentText]
  unfold Numeral.Scans scanNumber
  simp only [text, taken, List.drop_left, if_neg whole.1.2.1]
  cases rest with
  | nil => exact ⟨_, rfl, rfl, counts⟩
  | cons c rest =>
    obtain ⟨digit, point, mark⟩ := ends.stop c rfl
    refine ⟨⟨inRange (offset + whole.1.1.length) (integerNumber negative whole.1.1),
      offset + whole.1.1.length, c :: rest⟩, ?_, rfl, counts⟩
    simp [mark, digit]
    rfl

theorem scans_power (ends : Ends rest) : (Numeral.mk negative whole none (some e)).Scans offset rest := by
  obtain ⟨digit, point⟩ := mark_noDigit e.mark.2
  have taken := whole_taken whole (e.mark.1 :: (e.text.tail ++ rest)) (by simp [digit])
  have text : (Numeral.mk negative whole none (some e)).unsigned ++ rest =
      whole.1.1 ++ e.mark.1 :: (e.text.tail ++ rest) := by
    simp [Numeral.unsigned, Numeral.fractionText, Numeral.exponentText, Exponent.text]
  obtain ⟨scan, read, left, other⟩ :=
    scanExponent_text negative whole.1.1 [] (offset + whole.1.1.length + 1) e ends.noDigit
  refine ⟨scan, ?_, left, Numeral.counts_of_noNatural (by simp [Numeral.natural?]) other⟩
  unfold scanNumber
  simp only [text, taken, List.drop_left, if_neg whole.1.2.1]
  simp [e.mark.2, read]

theorem scans_fraction (ends : Ends rest) :
    (Numeral.mk negative whole (some digits) none).Scans offset rest := by
  have taken := whole_taken whole ('.' :: (digits.1 ++ rest)) (by simp [isDigit])
  have text : (Numeral.mk negative whole (some digits) none).unsigned ++ rest =
      whole.1.1 ++ '.' :: (digits.1 ++ rest) := by
    simp [Numeral.unsigned, Numeral.fractionText, Numeral.exponentText]
  have fraction := Text.takeWhile_run digits.2.2 ends.noDigit
  have behind := Text.dropWhile_run digits.2.2 ends.noDigit
  have real : ∀ number, realNumber negative whole.1.1 digits.1 0 = some number → NoNatural number :=
    fun _ => realNumber_noNatural
  have counts (stop : Nat) := Numeral.counts_of (n := ⟨negative, whole, some digits, none⟩)
    (by simp [Numeral.natural?]) real stop
  unfold Numeral.Scans scanNumber
  simp only [text, taken, List.drop_left, if_neg whole.1.2.1, fraction, behind, if_neg digits.2.1]
  cases rest with
  | nil => exact ⟨_, rfl, rfl, counts _⟩
  | cons c rest =>
    obtain ⟨-, -, mark⟩ := ends.stop c rfl
    simp only [mark, Bool.false_eq_true, if_false]
    exact ⟨_, rfl, rfl, counts _⟩

theorem scans_fraction_power (ends : Ends rest) :
    (Numeral.mk negative whole (some digits) (some e)).Scans offset rest := by
  obtain ⟨digit, -⟩ := mark_noDigit e.mark.2
  have noDigit : ∀ c ∈ (e.mark.1 :: (e.text.tail ++ rest)).head?, isDigit c = false := by
    simp [digit]
  have taken := whole_taken whole ('.' :: (digits.1 ++ e.mark.1 :: (e.text.tail ++ rest)))
    (by simp [isDigit])
  have text : (Numeral.mk negative whole (some digits) (some e)).unsigned ++ rest =
      whole.1.1 ++ '.' :: (digits.1 ++ e.mark.1 :: (e.text.tail ++ rest)) := by
    simp [Numeral.unsigned, Numeral.fractionText, Numeral.exponentText, Exponent.text]
  have fraction := Text.takeWhile_run digits.2.2 noDigit
  have behind := Text.dropWhile_run digits.2.2 noDigit
  obtain ⟨scan, read, left, other⟩ := scanExponent_text negative whole.1.1 digits.1
    (offset + whole.1.1.length + 1 + digits.1.length + 1) e ends.noDigit
  refine ⟨scan, ?_, left, Numeral.counts_of_noNatural (by simp [Numeral.natural?]) other⟩
  unfold scanNumber
  simp only [text, taken, List.drop_left, if_neg whole.1.2.1, fraction, behind, if_neg digits.2.1,
    e.mark.2, if_true, read]

end Scans

theorem scanNumber_unsigned (n : Numeral) (offset : Nat) {rest : List Char} (ends : Ends rest) :
    n.Scans offset rest := by
  obtain ⟨negative, whole, fraction, exponent⟩ := n
  match fraction, exponent with
  | none, none => exact scans_whole negative whole offset ends
  | none, some e => exact scans_power negative whole e offset ends
  | some digits, none => exact scans_fraction negative whole digits offset ends
  | some digits, some e => exact scans_fraction_power negative whole digits e offset ends

end PolicyLint.Document
