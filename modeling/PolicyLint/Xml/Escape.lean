import PolicyLint.Text.Pieces
/-!
Character references in XML: the five markup characters are written as named entities, and a text is
read back with named and numbered ones. An ampersand that starts no reference makes a text unreadable.
-/
namespace PolicyLint.Xml

/-- The entities, with the characters they stand for. -/
def entities : List (String × Char) :=
  [("lt", '<'), ("gt", '>'), ("amp", '&'), ("apos", '\x27'), ("quot", '"')]

def escapeChar (c : Char) : List Char :=
  match c with
  | '<' => "&lt;".toList
  | '>' => "&gt;".toList
  | '&' => "&amp;".toList
  | '\x27' => "&apos;".toList
  | '"' => "&quot;".toList
  | c => [c]

def escapeChars (cs : List Char) : List Char :=
  cs.flatMap escapeChar

def escape (s : String) : String :=
  String.ofList (escapeChars s.toList)

def digitOf? (c : Char) : Option Nat :=
  if '0' ≤ c ∧ c ≤ '9' then some (c.toNat - '0'.toNat)
  else if 'a' ≤ c ∧ c ≤ 'f' then some (c.toNat - 'a'.toNat + 10)
  else if 'A' ≤ c ∧ c ≤ 'F' then some (c.toNat - 'A'.toNat + 10)
  else none

/-- A number in a base, without a sign. -/
def numberIn? (base : Nat) (digits : List Char) : Option Nat :=
  if digits = [] then none
  else
    digits.foldlM (fun acc c =>
      (digitOf? c).bind fun d => if d < base then some (acc * base + d) else none) 0

/-- The character of a number; zero and what is no character have none. -/
def charOf? (code : Nat) : Option Char :=
  if h : code ≠ 0 ∧ code.isValidChar then some (Char.ofNatAux code h.2) else none

/-- The character of a reference, given what stands between the ampersand and the semicolon. -/
def reference? (name : List Char) : Option Char :=
  match name with
  | '#' :: 'x' :: digits => (numberIn? 16 digits).bind charOf?
  | '#' :: digits => (numberIn? 10 digits).bind charOf?
  | _ => entities.lookup (String.ofList name)

/-- Reads a text; `name` holds, in reverse, the reference that is open. -/
def unescapeChars? (name : Option (List Char)) : List Char → Option (List Char)
  | [] => if name.isNone then some [] else none
  | c :: rest =>
    match name with
    | none => if c = '&' then unescapeChars? (some []) rest else (c :: ·) <$> unescapeChars? none rest
    | some name =>
      if c = ';' then (reference? name.reverse).bind fun c => (c :: ·) <$> unescapeChars? none rest
      else if c = '&' then none
      else unescapeChars? (some (c :: name)) rest

def unescape? (s : String) : Option String :=
  (unescapeChars? none s.toList).map String.ofList

end PolicyLint.Xml
