import PolicyLint.Yaml.Scalar
/-!
A document as it was read: a tree of values that remembers where each began and ended, and that may
break off. What a reader makes of a broken document depends on what it asks for: a value that is
skipped is held to fewer rules than one that is kept, so a break names one fault for each use.
-/
namespace PolicyLint.Document

/-- What can be wrong with a JSON text. -/
inductive Cause where
  | eofInList | eofInObject | eofInString | eofInValue
  | expectedColon | expectedListEnd | expectedObjectEnd | expectedIdent | expectedValue
  | invalidEscape | invalidNumber | numberOutOfRange | controlCharacter | keyNotString
  | loneSurrogate | trailingComma | trailingCharacters | unfinishedSurrogate | tooDeep
deriving DecidableEq, Repr

def Cause.message : Cause → String
  | .eofInList => "EOF while parsing a list"
  | .eofInObject => "EOF while parsing an object"
  | .eofInString => "EOF while parsing a string"
  | .eofInValue => "EOF while parsing a value"
  | .expectedColon => "expected \x60:\x60"
  | .expectedListEnd => "expected \x60,\x60 or \x60]\x60"
  | .expectedObjectEnd => "expected \x60,\x60 or \x60\x7d\x60"
  | .expectedIdent => "expected ident"
  | .expectedValue => "expected value"
  | .invalidEscape => "invalid escape"
  | .invalidNumber => "invalid number"
  | .numberOutOfRange => "number out of range"
  | .controlCharacter => "control character (\\u0000-\\u001F) found while parsing a string"
  | .keyNotString => "key must be a string"
  | .loneSurrogate => "lone leading surrogate in hex escape"
  | .trailingComma => "trailing comma"
  | .trailingCharacters => "trailing characters"
  | .unfinishedSurrogate => "unexpected end of hex escape"
  | .tooDeep => "recursion limit exceeded"

/-- A cause and the number of bytes read when it shows. -/
structure Fault where
  cause : Cause
  offset : Nat
deriving DecidableEq, Repr

/-- The faults of one place: for a value that is kept, for one that is skipped, and for a list whose
reader has all it wants and looks for the end. -/
structure Break where
  kept : Fault
  skipped : Fault
  closing : Fault
deriving DecidableEq, Repr

/-- First and last offset, in bytes. -/
structure Span where
  start : Nat
  stop : Nat
deriving DecidableEq, Repr

/-- `stop` is the key's end and `next` the offset of what follows the blanks behind it, or of what
follows the object's end when that comes instead of a value. -/
structure Key where
  text : Except Fault String
  stop : Nat
  next : Nat

inductive Node where
  | null (span : Span)
  | bool (span : Span) (value : Bool)
  | number (span : Span) (value : Except Fault Number)
  | string (span : Span) (value : Except Fault String)
  /-- A scalar of a form in which the reader decides what it stands for. -/
  | scalar (value : Yaml.Scalar)
  /-- A container under a tag of the document's own. -/
  | tagged (content : Node)
  | array (span : Span) (items : List Node) (cut : Option Break)
  | object (span : Span) (members : List (Key × Node)) (cut : Option Break)
  /-- Nothing can be read from here on. `start` is given when a character stands there that begins
  neither a string nor an object. -/
  | broken (start : Option Nat) (cut : Break)

/-- How a tree came about: errors have a position only in a text, and each form has its own rules on
nesting and on lists given for records. -/
inductive Source where
  | text | value | yaml | toml
deriving DecidableEq, Repr

mutual

/-- A value taken as a document. -/
def Node.ofJson : Json → Node
  | .null => .null ⟨0, 0⟩
  | .bool b => .bool ⟨0, 0⟩ b
  | .number n => .number ⟨0, 0⟩ (.ok n)
  | .string s => .string ⟨0, 0⟩ (.ok s)
  | .array items => .array ⟨0, 0⟩ (Node.ofItems items) none
  | .object members => .object ⟨0, 0⟩ (Node.ofMembers members) none

def Node.ofItems : List Json → List Node
  | [] => []
  | v :: rest => Node.ofJson v :: Node.ofItems rest

def Node.ofMembers : List (String × Json) → List (Key × Node)
  | [] => []
  | (k, v) :: rest => (⟨.ok k, 0, 0⟩, Node.ofJson v) :: Node.ofMembers rest

end

end PolicyLint.Document
