import PolicyLint.Numeric.Double
import PolicyLint.Text.Pieces
/-!
Decimal numerals: digits with an optional sign, point and exponent, read as the nearest double.
-/
namespace PolicyLint.Numeric

/-- The value of digits in a base of at most 16; none for an empty list and for other characters. -/
def digitsValue? (base : Nat) (cs : List Char) : Option Nat :=
  let digit? := fun (c : Char) =>
    let value :=
      if '0' ≤ c ∧ c ≤ '9' then c.toNat - '0'.toNat
      else if 'a' ≤ c ∧ c ≤ 'f' then c.toNat - 'a'.toNat + 10
      else if 'A' ≤ c ∧ c ≤ 'F' then c.toNat - 'A'.toNat + 10
      else base
    if value < base then some value else none
  if cs.isEmpty then none
  else (cs.mapM digit?).map fun values => values.foldl (fun acc v => acc * base + v) 0

/-- A sign at the start, and what follows it. -/
def splitSign : List Char → Bool × List Char
  | '-' :: rest => (true, rest)
  | '+' :: rest => (false, rest)
  | cs => (false, cs)

/-- The exponent behind a numeral's digits: nothing, or a mark and an integer. -/
def exponent? : List Char → Option Int
  | [] => some 0
  | mark :: rest =>
    let signed := splitSign rest
    if mark = 'e' ∨ mark = 'E' then
      (digitsValue? 10 signed.2).map fun n => if signed.1 then -(n : Int) else n
    else none

/-- The double that a numeral stands for: none inside for one beyond the largest double, and none at
all for a text that is no numeral. A digit must stand before or behind the point. -/
def decimal? (cs : List Char) : Option (Option Double) := do
  let (negative, body) := splitSign cs
  let whole := body.takeWhile Text.isAsciiDigit
  let rest := body.dropWhile Text.isAsciiDigit
  let (fraction, rest) := match rest with
    | '.' :: rest => (rest.takeWhile Text.isAsciiDigit, rest.dropWhile Text.isAsciiDigit)
    | rest => ([], rest)
  let digits ← digitsValue? 10 (whole ++ fraction)
  let exponent ← exponent? rest
  return Double.ofDecimal? negative digits (exponent - fraction.length)

end PolicyLint.Numeric
