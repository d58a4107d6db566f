import PolicyLint.Numeric.Decimal
import PolicyLint.Toml.Table
/-!
The values of TOML that are written as one word: numbers, truth values, dates and times.
-/
namespace PolicyLint.Toml

/-- Digits with single underscores between them, without these. -/
def plainDigits? (isDigit : Char → Bool) (cs : List Char) : Option (List Char) :=
  let groups := cs.splitOn '_'
  if groups.all fun g => g ≠ [] && g.all isDigit then some groups.flatten else none

/-- A whole number in base ten has no zero in front. -/
def whole? (cs : List Char) : Option (List Char) := do
  let digits ← plainDigits? Text.isAsciiDigit cs
  if digits.head? = some '0' ∧ 1 < digits.length then none else some digits

def isHexDigit (c : Char) : Bool :=
  Text.isAsciiDigit c || ('a' ≤ c && c ≤ 'f') || ('A' ≤ c && c ≤ 'F')

def natural? : List Char → Option Nat
  | '0' :: 'x' :: digits => (plainDigits? isHexDigit digits).bind (Numeric.digitsValue? 16)
  | '0' :: 'o' :: digits => (plainDigits? isHexDigit digits).bind (Numeric.digitsValue? 8)
  | '0' :: 'b' :: digits => (plainDigits? isHexDigit digits).bind (Numeric.digitsValue? 2)
  | _ => none

/-- An integer of at most 128 bits; a sign stands only before base ten. -/
def integer? (cs : List Char) : Option Int := do
  let (negative, body) := Numeric.splitSign cs
  let magnitude ← natural? cs <|> (whole? body).bind (Numeric.digitsValue? 10)
  let value : Int := if negative then -(magnitude : Int) else magnitude
  if -Nat.pow 2 127 ≤ value ∧ value < Nat.pow 2 128 then some value else none

/-- The digits behind the point, and the exponent with its mark. -/
def tail? (cs : List Char) : Option (List Char) := do
  let isMark := fun c : Char => c = 'e' || c = 'E'
  let before := cs.takeWhile fun c => !isMark c
  let fraction ←
    match before with
    | [] => some []
    | '.' :: digits => ('.' :: ·) <$> plainDigits? Text.isAsciiDigit digits
    | _ => none
  match cs.dropWhile fun c => !isMark c with
  | [] => return fraction
  | _ :: exponent =>
    let (negative, digits) := Numeric.splitSign exponent
    let digits ← plainDigits? Text.isAsciiDigit digits
    return fraction ++ ['e', if negative then '-' else '+'] ++ digits

/-- A double that is no larger than the largest, or one of the words for what is not finite. -/
def real? (cs : List Char) : Option (Option Double) := do
  let (negative, body) := Numeric.splitSign cs
  if body = "inf".toList ∨ body = "nan".toList then return none
  let isWhole := fun c : Char => Text.isAsciiDigit c || c = '_'
  let whole ← whole? (body.takeWhile isWhole)
  let tail := body.dropWhile isWhole
  if tail = [] then none
  let value ← Numeric.decimal? ((if negative then ['-'] else []) ++ whole ++ (← tail? tail))
  return some (← value)

/-! ### Dates and times -/

/-- A number of exactly two digits in a range, and what follows. -/
def pair? (low high : Nat) : List Char → Option (Nat × List Char)
  | a :: b :: rest => do
    let n ← Numeric.digitsValue? 10 [a, b]
    if low ≤ n ∧ n ≤ high then some (n, rest) else none
  | _ => none

def expect? (mark : Char) : List Char → Option (List Char)
  | c :: rest => if c = mark then some rest else none
  | [] => none

def daysOf (year month : Nat) : Nat :=
  let isLeap := year % 4 = 0 ∧ (year % 100 ≠ 0 ∨ year % 400 = 0)
  if month = 2 then (if isLeap then 29 else 28)
  else if [4, 6, 9, 11].contains month then 30
  else 31

def date? (cs : List Char) : Option (List Char) := do
  if cs.length < 4 then none
  let year ← Numeric.digitsValue? 10 (cs.take 4)
  let (month, rest) ← pair? 1 12 (← expect? '-' (cs.drop 4))
  let (_, rest) ← pair? 1 (daysOf year month) (← expect? '-' rest)
  return rest

/-- Seconds, and with them a fraction, may be missing. -/
def time? (cs : List Char) : Option (List Char) := do
  let (_, rest) ← pair? 0 23 cs
  let (_, rest) ← pair? 0 59 (← expect? ':' rest)
  match expect? ':' rest with
  | none => return rest
  | some rest =>
    let (_, rest) ← pair? 0 60 rest
    match rest with
    | '.' :: d :: rest =>
      if Text.isAsciiDigit d then return rest.dropWhile Text.isAsciiDigit else none
    | rest => return rest

def offset? : List Char → Option (List Char)
  | [] => some []
  | c :: rest =>
    if c = 'Z' ∨ c = 'z' then some rest
    else if c = '+' ∨ c = '-' then do
      let (_, rest) ← pair? 0 23 rest
      let (_, rest) ← pair? 0 59 (← expect? ':' rest)
      return rest
    else none

/-- A date, a time, or a date with a time behind a letter or a blank. -/
def isMoment (cs : List Char) : Bool :=
  match date? cs with
  | some [] => true
  | some (mark :: rest) =>
    ['T', 't', ' '].contains mark && ((time? rest).bind offset?) == some []
  | none => time? cs == some []

/-! ### Words -/

def isAtomChar (c : Char) : Bool :=
  Text.isAsciiAlphanum c || ['_', '+', '-', '.', ':'].contains c

/-- The word at the start; a date takes the time behind a blank with it. -/
def takeAtom (cs : List Char) : List Char × List Char :=
  let word := cs.takeWhile isAtomChar
  match date? word, cs.dropWhile isAtomChar with
  | some [], ' ' :: d :: rest =>
    if Text.isAsciiDigit d then
      (word ++ ' ' :: (d :: rest).takeWhile isAtomChar, (d :: rest).dropWhile isAtomChar)
    else (word, ' ' :: d :: rest)
  | _, rest => (word, rest)

def atom? (word : List Char) : Option Value :=
  if word = "true".toList then some (.bool true)
  else if word = "false".toList then some (.bool false)
  else if isMoment word then some (.moment (String.ofList word))
  else
    match integer? word with
    | some i => some (.integer i)
    | none => (real? word).map .real

end PolicyLint.Toml
