/-!
Binary floating-point numbers of 64 bits as exact values: a sign, a natural significand and a power
of two. Every arithmetic step computes an exact ratio of naturals and rounds it once, to the nearest
value, ties to the even significand.
-/
namespace PolicyLint

/-- One significand and exponent per magnitude: 53 bits, the leading one set unless the exponent is
the least. -/
def Double.IsCanonical (significand : Nat) (exponent : Int) : Prop :=
  significand < Nat.pow 2 53 ∧ -1074 ≤ exponent ∧ exponent ≤ 971 ∧
    (significand < Nat.pow 2 52 → exponent = -1074)

instance (significand : Nat) (exponent : Int) :
    Decidable (Double.IsCanonical significand exponent) := by
  unfold Double.IsCanonical; infer_instance

/-- The finite number `± significand · 2 ^ exponent`. -/
structure Double where
  negative : Bool
  significand : Nat
  exponent : Int
  canonical : Double.IsCanonical significand exponent
deriving DecidableEq

namespace Double

def ofParts? (negative : Bool) (significand : Nat) (exponent : Int) : Option Double :=
  if h : IsCanonical significand exponent then some ⟨negative, significand, exponent, h⟩ else none

/-- Both zeros are numbers of their own. -/
def zero (negative : Bool) : Double :=
  ⟨negative, 0, -1074, by decide⟩

def isZero (d : Double) : Bool :=
  d.significand == 0

def negate (d : Double) : Double :=
  { d with negative := !d.negative }

/-- The natural next to `num / den`; a tie goes to the even one. -/
def roundDiv (num den : Nat) : Nat :=
  let below := num / den
  let rest := 2 * (num % den)
  if den < rest ∨ (rest = den ∧ below % 2 = 1) then below + 1 else below

/-- The ratio `num / den` in units of `2 ^ scale`, as a new ratio. -/
def inUnits (num den : Nat) (scale : Int) : Nat × Nat :=
  (num * Nat.pow 2 (-scale).toNat, den * Nat.pow 2 scale.toNat)

/-- The exponent at which `num / den` has a significand of at most 53 bits, and no fewer unless the
exponent is the least. -/
def scaleFor (num den : Nat) : Int :=
  let guess : Int := max (-1074) ((num.log2 : Int) - den.log2 - 53)
  let units := inUnits num den guess
  if units.1 / units.2 < Nat.pow 2 53 then guess else guess + 1

/-- The double nearest to `± num / den`, or none when that is beyond the largest one. -/
def ofRatio? (negative : Bool) (num den : Nat) : Option Double :=
  let scale := scaleFor num den
  let units := inUnits num den scale
  let rounded := roundDiv units.1 units.2
  if num = 0 then some (zero negative)
  else if rounded < Nat.pow 2 53 then ofParts? negative rounded scale
  else ofParts? negative (rounded / 2) (scale + 1)

def ofNat? (n : Nat) : Option Double :=
  ofRatio? false n 1

/-- The magnitude as an exact ratio. -/
def ratio (d : Double) : Nat × Nat :=
  (d.significand * Nat.pow 2 d.exponent.toNat, Nat.pow 2 (-d.exponent).toNat)

def mul? (a b : Double) : Option Double :=
  ofRatio? (a.negative != b.negative) (a.ratio.1 * b.ratio.1) (a.ratio.2 * b.ratio.2)

/-- The divisor is not zero. -/
def div? (a b : Double) : Option Double :=
  ofRatio? (a.negative != b.negative) (a.ratio.1 * b.ratio.2) (a.ratio.2 * b.ratio.1)

/-- The double nearest to `± digits · 10 ^ exponent`, or none when that is beyond the largest one. -/
def ofDecimal? (negative : Bool) (digits : Nat) (exponent : Int) : Option Double :=
  let size : Int := digits.log2 / 3 + exponent
  if digits = 0 ∨ size < -400 then some (zero negative)
  else if 700 < exponent then none
  else ofRatio? negative (digits * Nat.pow 10 exponent.toNat) (Nat.pow 10 (-exponent).toNat)

def apply (negative : Bool) (magnitude : Nat) : Int :=
  if negative then -(magnitude : Int) else magnitude

/-- The integer toward zero. -/
def truncate (d : Double) : Int :=
  apply d.negative (d.ratio.1 / d.ratio.2)

def isIntegral (d : Double) : Bool :=
  d.ratio.1 % d.ratio.2 == 0

/-- Whether the magnitude is less than a natural number. -/
def magnitudeBelow (d : Double) (bound : Nat) : Bool :=
  d.ratio.1 < bound * d.ratio.2

end Double
end PolicyLint
