import PolicyLint.Numeric.Double
/-!
The fewest decimal digits that read back to a double, chosen in exact arithmetic, and their layouts.

A decimal grid of step `10 ^ k` is fine enough for a double when one of the double's two neighbours
on it rounds to the double; the coarsest such grid gives the digits, and of two hits the nearer.
-/
namespace PolicyLint.Numeric

/-- A decimal `digits · 10 ^ exponent`. -/
structure Decimal where
  digits : Nat
  exponent : Int
deriving DecidableEq, Repr

/-- The open interval of magnitudes that round to a double, with its ends included for an even
significand; all three numbers count in units of `1 / den`. -/
structure Rounding where
  low : Nat
  value : Nat
  high : Nat
  den : Nat
  ends : Bool

/-- Below a power of two the next smaller double is only half as far as the next larger one. -/
def Rounding.of (d : Double) : Rounding :=
  let unit := Nat.pow 2 d.exponent.toNat
  let value := 4 * d.significand * unit
  let gapBelow := if d.significand = Nat.pow 2 52 ∧ d.exponent ≠ -1074 then unit else 2 * unit
  ⟨value - gapBelow, value, value + 2 * unit, 4 * Nat.pow 2 (-d.exponent).toNat, d.significand % 2 = 0⟩

/-- Whether `num / den` lies in the interval. -/
def Rounding.holds (r : Rounding) (num den : Nat) : Bool :=
  if r.ends then r.low * den ≤ num * r.den && num * r.den ≤ r.high * den
  else r.low * den < num * r.den && num * r.den < r.high * den

def countDigits (n : Nat) : Nat :=
  (Nat.toDigits 10 n).length

/-- The exponent of the leading decimal digit of `num / den`, for a positive ratio. -/
def leadingExponent (num den : Nat) : Int :=
  if den ≤ num then countDigits (num / den) - 1
  else -countDigits ((den + num - 1) / num - 1)

/-- The hit of the two neighbours on the grid of step `10 ^ k`, if any: the nearer one, the even one
on a tie. -/
def Rounding.onGrid? (r : Rounding) (k : Int) : Option Decimal :=
  let up := Nat.pow 10 k.toNat
  let down := Nat.pow 10 (-k).toNat
  let below := r.value * down / (r.den * up)
  let rest := r.value * down % (r.den * up)
  let hit := fun n : Nat => r.holds (n * up) down
  let nearerAbove := r.den * up < 2 * rest ∨ (r.den * up = 2 * rest ∧ below % 2 = 1)
  let first := if nearerAbove then below + 1 else below
  let second := if nearerAbove then below else below + 1
  if hit first then some ⟨first, k⟩ else if hit second then some ⟨second, k⟩ else none

/-- The shortest decimal of a positive double; seventeen digits always suffice. -/
def shortest (d : Double) : Decimal :=
  let r := Rounding.of d
  let lead := leadingExponent r.value r.den
  let found := (List.range 17).findSome? fun extra : Nat => r.onGrid? (lead - extra)
  found.getD ⟨r.value, 0⟩

/-- The digits without trailing zeros, as text. -/
def significantDigits (n : Decimal) : List Char :=
  ((Nat.toDigits 10 n.digits).reverse.dropWhile (· == '0')).reverse

/-- The exponent of the first digit when the decimal is written as `d.ddd · 10 ^ e`. -/
def scientificExponent (n : Decimal) : Int :=
  countDigits n.digits - 1 + n.exponent

def zeros (n : Nat) : List Char :=
  List.replicate n '0'

/-- Digits with the first one at `10 ^ e`, as an integer part and a fraction part. -/
def positional (digits : List Char) (e : Int) : List Char × List Char :=
  if e < 0 then (['0'], zeros (-e - 1).toNat ++ digits)
  else
    let whole := e.toNat + 1
    (digits.take whole ++ zeros (whole - digits.length), digits.drop whole)

def sign (d : Double) : List Char :=
  if d.negative then ['-'] else []

/-- Always positional; a fraction only where one is needed. -/
def plainText (d : Double) : String :=
  if d.isZero then String.ofList (sign d ++ ['0'])
  else
    let n := shortest d
    let parts := positional (significantDigits n) (scientificExponent n)
    String.ofList (sign d ++ parts.1 ++ (if parts.2 = [] then [] else '.' :: parts.2))

/-- How JSON numbers are written: positional with a fraction from `10 ^ -5` up to below `10 ^ 16`,
else one digit, the rest as a fraction, and a signed exponent. -/
def scientificText (d : Double) : String :=
  if d.isZero then String.ofList (sign d ++ "0.0".toList)
  else
    let n := shortest d
    let digits := significantDigits n
    let e := scientificExponent n
    let body :=
      if -5 ≤ e ∧ e < 16 then
        let parts := positional digits e
        parts.1 ++ '.' :: (if parts.2 = [] then ['0'] else parts.2)
      else
        let fraction := digits.drop 1
        digits.take 1 ++ (if fraction = [] then [] else '.' :: fraction) ++
          (if e < 0 then "e-".toList else "e+".toList) ++ Nat.toDigits 10 e.natAbs
    String.ofList (sign d ++ body)

end PolicyLint.Numeric
