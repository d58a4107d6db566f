import PolicyLint.Json.Value
import PolicyLint.Numeric.Shortest
/-!
JSON texts: compact, or laid out with two blanks per level. Only the quote, the backslash and the
control characters below the blank are escaped.
-/
namespace PolicyLint.Json

def hexDigits (n : Nat) : List Char :=
  let digits := Nat.toDigits 16 n
  List.replicate (4 - digits.length) '0' ++ digits

/-- Lower-case hexadecimal where a control character has no letter of its own. -/
def escapeChar (c : Char) : List Char :=
  if c = '"' then ['\\', '"']
  else if c = '\\' then ['\\', '\\']
  else if c = '\x08' then ['\\', 'b']
  else if c = '\t' then ['\\', 't']
  else if c = '\n' then ['\\', 'n']
  else if c = '\x0c' then ['\\', 'f']
  else if c = '\r' then ['\\', 'r']
  else if c.toNat < 0x20 then '\\' :: 'u' :: hexDigits c.toNat
  else [c]

def quoted (s : String) : List Char :=
  '"' :: s.toList.flatMap escapeChar ++ ['"']

def numberText : Number → String
  | .integer i _ => toString i
  | .real d => Numeric.scientificText d

mutual

def compactChars : Json → List Char
  | .null => "null".toList
  | .bool b => (if b then "true" else "false").toList
  | .number n => (numberText n).toList
  | .string s => quoted s
  | .array items => '[' :: compactItems true items
  | .object members => '\x7b' :: compactMembers true members

def compactItems (first : Bool) : List Json → List Char
  | [] => [']']
  | v :: rest => (if first then [] else [',']) ++ compactChars v ++ compactItems false rest

def compactMembers (first : Bool) : List (String × Json) → List Char
  | [] => ['\x7d']
  | (k, v) :: rest =>
    (if first then [] else [',']) ++ quoted k ++ ':' :: compactChars v ++ compactMembers false rest

end

/-- The text without any blank between its parts. -/
def compact (v : Json) : String :=
  String.ofList (compactChars v)

def newline (level : Nat) : List Char :=
  '\n' :: List.replicate (2 * level) ' '

mutual

def prettyChars (level : Nat) : Json → List Char
  | .null => "null".toList
  | .bool b => (if b then "true" else "false").toList
  | .number n => (numberText n).toList
  | .string s => quoted s
  | .array [] => ['[', ']']
  | .array (v :: rest) => '[' :: prettyItems (level + 1) true (v :: rest) ++ newline level ++ [']']
  | .object [] => ['\x7b', '\x7d']
  | .object (m :: rest) =>
    '\x7b' :: prettyMembers (level + 1) true (m :: rest) ++ newline level ++ ['\x7d']

def prettyItems (level : Nat) (first : Bool) : List Json → List Char
  | [] => []
  | v :: rest =>
    (if first then [] else [',']) ++ newline level ++ prettyChars level v ++
      prettyItems level false rest

def prettyMembers (level : Nat) (first : Bool) : List (String × Json) → List Char
  | [] => []
  | (k, v) :: rest =>
    (if first then [] else [',']) ++ newline level ++ quoted k ++ ':' :: ' ' ::
      prettyChars level v ++ prettyMembers level false rest

end

/-- One item or member a line, two blanks a level; an empty container stays on its line. -/
def pretty (v : Json) : String :=
  String.ofList (prettyChars 0 v)

end PolicyLint.Json
