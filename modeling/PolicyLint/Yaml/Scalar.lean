import PolicyLint.Json.Value
import PolicyLint.Numeric.Decimal
/-!
Scalars of YAML: a text, how it was written, and its tag. What a scalar stands for depends on what is
asked. Every scalar is a text; a plain one, or one whose tag says so, may also be a number, a truth
value or nothing.
-/
namespace PolicyLint.Yaml

inductive Style where
  | plain | quoted | literal | folded
deriving DecidableEq, Repr

/-- The tags that say what a value is; `named` is a tag of the document's own. -/
inductive Tag where
  | bool | int | float | null
  | named (name : String)
  | other
deriving DecidableEq, Repr

structure Scalar where
  text : String
  style : Style
  tag : Option Tag
deriving DecidableEq, Repr

def Scalar.empty : Scalar := ⟨"", .plain, none⟩

/-! ### Words -/

def isNullWord (text : String) : Bool :=
  ["null", "Null", "NULL", "~"].contains text

def truth? (text : String) : Option Bool :=
  if ["true", "True", "TRUE"].contains text then some true
  else if ["false", "False", "FALSE"].contains text then some false
  else none

/-- Digits behind a zero are a text and no number. -/
def isPadded : List Char → Bool
  | '0' :: c :: rest => (c :: rest).all Text.isAsciiDigit
  | _ => false

/-- A natural number, in base ten or in the base that its lead names. -/
def magnitude? : List Char → Option Nat
  | '0' :: 'x' :: digits => Numeric.digitsValue? 16 digits
  | '0' :: 'o' :: digits => Numeric.digitsValue? 8 digits
  | '0' :: 'b' :: digits => Numeric.digitsValue? 2 digits
  | cs => if isPadded cs then none else Numeric.digitsValue? 10 cs

def integer? (text : String) : Option Int :=
  let signed := Numeric.splitSign text.toList
  (magnitude? signed.2).map fun n => if signed.1 then -(n : Int) else n

/-- A finite double; none inside for the words of the numbers that are not. -/
def real? (text : String) : Option (Option Double) :=
  if [".inf", ".Inf", ".INF", "+.inf", "+.Inf", "+.INF", "-.inf", "-.Inf", "-.INF", ".nan", ".NaN",
      ".NAN"].contains text then some none
  else
    match Numeric.decimal? text.toList with
    | some (some d) => some (some d)
    | _ => none

/-- Numbers that are not finite have no place in JSON. -/
def realValue : Option Double → Json
  | some d => .number (.real d)
  | none => .null

/-! ### What a scalar stands for -/

/-- Integers of more than 64 bits and at most 128 cannot be read at all; longer ones are doubles, and
texts when they are beyond these. -/
def isWide (i : Int) : Bool :=
  -Nat.pow 2 127 ≤ i && i < Nat.pow 2 128

/-- The value of a word without quotes and tag; none for one that cannot be read. -/
def wordValue? (text : String) : Option Json :=
  let asReal :=
    if isPadded (Numeric.splitSign text.toList).2 then Json.string text
    else ((real? text).map realValue).getD (.string text)
  if text = "" ∨ isNullWord text then some .null
  else
    match truth? text, integer? text with
    | some b, _ => some (.bool b)
    | none, some i =>
      match Number.ofInt? i with
      | some n => some (.number n)
      | none => if isWide i then none else some asReal
    | none, none => some asReal

namespace Scalar

/-- The value of a scalar whose type is left to the document; none when its tag forbids it. -/
def value? (s : Scalar) : Option Json :=
  match s.tag with
  | none => if s.style = .plain then wordValue? s.text else some (.string s.text)
  | some .bool => (truth? s.text).map .bool
  | some .int => ((integer? s.text).bind Number.ofInt?).map .number
  | some .float => (real? s.text).map realValue
  | some .null => if isNullWord s.text then some .null else none
  | some (.named _) => none
  | some .other => some (.string s.text)

/-- Whether the text may be read as a value of another type. -/
def isOpen (s : Scalar) (tag : Tag) : Bool :=
  s.style = .plain || (s.style = .literal && s.tag = some tag)

def bool? (s : Scalar) : Option Bool :=
  if s.isOpen .bool then truth? s.text else none

def natural? (s : Scalar) : Option Nat :=
  if s.isOpen .int then
    match s.text.toList with
    | '+' :: rest => magnitude? rest
    | cs => magnitude? cs
  else none

/-- An empty word is an empty container too. -/
def isVoid (s : Scalar) : Bool :=
  s.style = .plain && s.text == ""

/-- Whether something is there; none when the tag says that nothing is, and the text something else. -/
def isPresent? (s : Scalar) : Option Bool :=
  if s.style ≠ .plain then some true
  else
    match s.tag with
    | none => some !(s.text == "" || isNullWord s.text)
    | some .null => if isNullWord s.text then some false else none
    | some _ => some true

/-- Whether the content behind a tag is nothing. -/
def isUnit (s : Scalar) : Bool :=
  s.style = .plain && (s.text == "" || isNullWord s.text)

end Scalar
end PolicyLint.Yaml
