/-!
A place in a YAML text: what is still to be read, how many characters were read, and the line and
column. Every step forward makes the rest shorter.
-/
namespace PolicyLint.Yaml

/-- What can be wrong with a text as YAML. -/
inductive Fault where
  | controlCharacter | strayCharacter | tab
  | entryPlace | keyPlace | valuePlace | colonPlace | missingColon
  | directive | anchor | tag | undefinedHandle | blockHeader | escape
  | unclosedQuote | markerInQuote
  | missingDocument | missingNode | missingEntry | missingKey | missingComma
  | unknownAnchor | secondDocument
deriving DecidableEq, Repr

def Fault.message : Fault → String
  | .controlCharacter => "control characters are not allowed"
  | .strayCharacter => "found character that cannot start any token"
  | .tab => "found a tab character that violates indentation"
  | .entryPlace => "block sequence entries are not allowed in this context"
  | .keyPlace => "mapping keys are not allowed in this context"
  | .valuePlace => "mapping values are not allowed in this context"
  | .colonPlace => "found unexpected ':'"
  | .missingColon => "could not find expected ':'"
  | .directive => "found an invalid directive"
  | .anchor => "did not find expected alphabetic or numeric character"
  | .tag => "did not find expected tag URI"
  | .undefinedHandle => "found undefined tag handle"
  | .blockHeader => "did not find expected comment or line break"
  | .escape => "found unknown escape character"
  | .unclosedQuote => "found unexpected end of stream"
  | .markerInQuote => "found unexpected document indicator"
  | .missingDocument => "did not find expected <document start>"
  | .missingNode => "did not find expected node content"
  | .missingEntry => "did not find expected '-' indicator"
  | .missingKey => "did not find expected key"
  | .missingComma => "did not find expected ',' or closing bracket"
  | .unknownAnchor => "unknown anchor"
  | .secondDocument => "deserializing from YAML containing more than one document is not supported"

def isBreak (c : Char) : Bool :=
  ['\n', '\r', '\x85', '\u2028', '\u2029'].contains c

def isBlank (c : Char) : Bool :=
  c = ' ' || c = '\t'

/-- What ends a word: a blank, a break or the end of the text. -/
def endsWord : Option Char → Bool
  | none => true
  | some c => isBlank c || isBreak c

/-- The character that a break leaves in a scalar. -/
def breakText (c : Char) : Char :=
  if c = '\u2028' ∨ c = '\u2029' then c else '\n'

structure Cursor where
  rest : List Char
  index : Nat
  line : Nat
  column : Nat

namespace Cursor

def start (cs : List Char) : Cursor := ⟨cs, 0, 0, 0⟩

def peek (cursor : Cursor) (n : Nat) : Option Char :=
  cursor.rest[n]?

/-- One character further; a carriage return and a line feed are one break. -/
def next (cursor : Cursor) : Cursor :=
  match cursor.rest with
  | [] => cursor
  | '\r' :: '\n' :: rest => ⟨rest, cursor.index + 2, cursor.line + 1, 0⟩
  | c :: rest =>
    if isBreak c then ⟨rest, cursor.index + 1, cursor.line + 1, 0⟩
    else ⟨rest, cursor.index + 1, cursor.line, cursor.column + 1⟩

def forward (cursor : Cursor) : Nat → Cursor
  | 0 => cursor
  | n + 1 => cursor.next.forward n

/-- The characters up to the first one that does not fit, and the place behind them. -/
def span (p : Char → Bool) (cursor : Cursor) : List Char × Cursor :=
  let taken := cursor.rest.takeWhile p
  (taken, cursor.forward taken.length)

def skipBlanks (cursor : Cursor) : Cursor :=
  (cursor.span isBlank).2

/-- A comment reaches to the end of the line. -/
def skipComment (cursor : Cursor) : Cursor :=
  if cursor.peek 0 = some '#' then (cursor.span fun c => !isBreak c).2 else cursor

/-- Three equal marks as the first word of a line. -/
def isAtMarker (cursor : Cursor) (mark : Char) : Bool :=
  cursor.column == 0 && cursor.rest.take 3 == [mark, mark, mark] && endsWord (cursor.peek 3)

def isAtAnyMarker (cursor : Cursor) : Bool :=
  cursor.isAtMarker '-' || cursor.isAtMarker '.'

theorem length_next_le (cursor : Cursor) : cursor.next.rest.length ≤ cursor.rest.length := by
  unfold next
  split
  · exact Nat.le_refl _
  · rename_i h; simp only [h, List.length_cons]; omega
  · rename_i h; split <;> simp [h]

theorem length_next_lt {cursor : Cursor} {c : Char} {rest : List Char}
    (h : cursor.rest = c :: rest) : cursor.next.rest.length < cursor.rest.length := by
  unfold next
  split
  · simp_all
  · rename_i h'; simp only [h', List.length_cons]; omega
  · rename_i h'; split <;> simp [h']

theorem length_forward_le (cursor : Cursor) (n : Nat) :
    (cursor.forward n).rest.length ≤ cursor.rest.length := by
  induction n generalizing cursor with
  | zero => exact Nat.le_refl _
  | succ n ih => exact Nat.le_trans (ih cursor.next) cursor.length_next_le

theorem length_forward_lt {cursor : Cursor} {c : Char} {rest : List Char} (n : Nat)
    (h : cursor.rest = c :: rest) :
    (cursor.forward (n + 1)).rest.length < cursor.rest.length :=
  Nat.lt_of_le_of_lt (length_forward_le cursor.next n) (length_next_lt h)

end Cursor
end PolicyLint.Yaml
