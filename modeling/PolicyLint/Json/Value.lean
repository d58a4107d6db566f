import PolicyLint.Numeric.Double
/-!
JSON values. A number is an integer of 64 bits, signed or unsigned, or a double; an object keeps its
members in the order in which their keys first came.
-/
namespace PolicyLint

/-- From the least signed word of 64 bits to the largest unsigned one. -/
def Number.IsWord (i : Int) : Prop :=
  -9223372036854775808 ≤ i ∧ i < 18446744073709551616

instance (i : Int) : Decidable (Number.IsWord i) := by
  unfold Number.IsWord; infer_instance

/-- A number that is written without fraction and exponent and fits 64 bits stays an integer. -/
inductive Number where
  | integer (value : Int) (fits : Number.IsWord value)
  | real (value : Double)
deriving DecidableEq

inductive Json where
  | null
  | bool (value : Bool)
  | number (value : Number)
  | string (value : String)
  | array (items : List Json)
  | object (members : List (String × Json))
deriving Inhabited

/-- The members of an object, in order. -/
abbrev Fields := List (String × Json)

namespace Number

/-- Naturals beyond 64 bits are not written by this program. -/
def ofNat (n : Nat) : Number :=
  if h : IsWord n then .integer n h else .real ((Double.ofNat? n).getD (Double.zero false))

def ofInt? (i : Int) : Option Number :=
  if h : IsWord i then some (.integer i h) else none

/-- The nearest integer toward zero that is a signed word of 64 bits. -/
def clamp (i : Int) : Int :=
  max (-9223372036854775808) (min 9223372036854775807 i)

/-- A whole number that is a signed word of 64 bits. -/
def signedWord? : Number → Option Int
  | .integer i _ => if clamp i = i then some i else none
  | .real _ => none

/-- The nearest double. -/
def nearest? : Number → Option Double
  | .integer i _ => Double.ofRatio? (decide (i < 0)) i.natAbs 1
  | .real d => some d

/-- A signed word as it is; any other number by its double, toward zero and then clamped. -/
def toWord (n : Number) : Int :=
  (n.signedWord? <|> n.nearest?.map fun d => clamp d.truncate).getD 0

end Number

namespace Fields

def get? (key : String) (fields : Fields) : Option Json :=
  fields.lookup key

def has (key : String) (fields : Fields) : Bool :=
  (fields.get? key).isSome

/-- A key that is present keeps its place and takes the new value. -/
def insert (key : String) (value : Json) : Fields → Fields
  | [] => [(key, value)]
  | (k, v) :: rest => if k = key then (k, value) :: rest else (k, v) :: insert key value rest

end Fields

namespace Json

def ofInt (i : Int) : Json :=
  match Number.ofInt? i with
  | some n => .number n
  | none => .null

def ofNat (n : Nat) : Json :=
  .number (Number.ofNat n)

def strings (items : List String) : Json :=
  .array (items.map .string)

def string? : Json → Option String
  | .string s => some s
  | _ => none

def bool? : Json → Option Bool
  | .bool b => some b
  | _ => none

def number? : Json → Option Number
  | .number n => some n
  | _ => none

def array? : Json → Option (List Json)
  | .array items => some items
  | _ => none

def object? : Json → Option Fields
  | .object members => some members
  | _ => none

/-- The member of an object under a key; nothing for any other value. -/
def get? (key : String) (value : Json) : Option Json :=
  value.object?.bind (Fields.get? key)

end Json
end PolicyLint
