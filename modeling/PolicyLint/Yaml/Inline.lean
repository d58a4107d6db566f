import PolicyLint.Yaml.Cursor
import PolicyLint.Document.Token
/-!
Scalars on lines: plain words and quoted texts. Both may go on over several lines; a single break then
counts as a blank, and of several breaks in a row the first one goes.
-/
namespace PolicyLint.Yaml

/-- What stands between two words, newest first: blanks on one line, or breaks with blanks around
them. `first` is missing behind a break that was escaped. -/
inductive Gap where
  | blanks (text : List Char)
  | breaks (first : Option Char) (more : List Char)

namespace Gap

def add (c : Char) : Option Gap → Gap
  | some (.breaks first more) => if isBlank c then .breaks first more else .breaks first (breakText c :: more)
  | some (.blanks text) => if isBlank c then .blanks (c :: text) else .breaks (some (breakText c)) []
  | none => if isBlank c then .blanks [c] else .breaks (some (breakText c)) []

/-- The text that a gap leaves between the words. -/
def text : Gap → List Char
  | .blanks text => text.reverse
  | .breaks (some '\n') [] => [' ']
  | .breaks (some '\n') more => more.reverse
  | .breaks first more => first.toList ++ more.reverse

def hasBreak : Option Gap → Bool
  | some (.breaks ..) => true
  | _ => false

/-- A word read so far, newest first, with the gap behind it. -/
def close (gap : Option Gap) (word : List Char) : List Char :=
  match gap with
  | some gap => gap.text.reverse ++ word
  | none => word

end Gap

/-! ### Plain words -/

/-- A scalar on lines: its text, whether a break was read behind it, and the place behind that. -/
structure Inline where
  text : String
  broken : Bool
  cursor : Cursor

def flowMarks : List Char := [',', '[', ']', '{', '}']

/-- Whether a plain word ends at a character within a line. -/
def endsPlain (inFlow : Bool) (c : Char) (following : Option Char) : Bool :=
  (c = ':' && endsWord following) || (inFlow && flowMarks.contains c)

/-- Whether what comes behind a gap is no part of the word. -/
def leavesPlain (inFlow : Bool) (indent : Int) (cursor : Cursor) : Bool :=
  (!inFlow && cursor.column < indent) || cursor.isAtAnyMarker || cursor.peek 0 = some '#'

/-- A plain word from the cursor on. Lines that continue it are indented by at least `indent`. -/
def plainFrom (inFlow : Bool) (indent : Int) (word : List Char) (gap : Option Gap) (cursor : Cursor) :
    Except Fault Inline :=
  let result := Inline.mk (String.ofList word.reverse) (Gap.hasBreak gap) cursor
  match _h : cursor.rest with
  | [] => .ok result
  | c :: _ =>
    if isBlank c ∨ isBreak c then
      if c = '\t' ∧ Gap.hasBreak gap ∧ cursor.column < indent then .error .tab
      else plainFrom inFlow indent word (some (Gap.add c gap)) cursor.next
    else if gap.isSome ∧ leavesPlain inFlow indent cursor then .ok result
    else if inFlow ∧ c = ':' ∧ (cursor.peek 1).any (fun d => d = '?' || flowMarks.contains d) then
      .error .colonPlace
    else if endsPlain inFlow c (cursor.peek 1) then .ok result
    else plainFrom inFlow indent (c :: Gap.close gap word) none cursor.next
termination_by cursor.rest.length
decreasing_by all_goals exact Cursor.length_next_lt _h

/-! ### Quoted texts -/

def namedEscape? (c : Char) : Option Char :=
  [('0', '\x00'), ('a', '\x07'), ('b', '\x08'), ('t', '\t'), ('\t', '\t'), ('n', '\n'), ('v', '\x0b'),
    ('f', '\x0c'), ('r', '\r'), ('e', '\x1b'), (' ', ' '), ('"', '"'), ('/', '/'), ('\\', '\\'),
    ('N', '\x85'), ('_', '\xa0'), ('L', '\u2028'), ('P', '\u2029')].lookup c

/-- How many hexadecimal digits follow the letter of an escape. -/
def codeLength? (c : Char) : Option Nat :=
  [('x', 2), ('u', 4), ('U', 8)].lookup c

/-- The character of a code, which must not be half of a pair. -/
def codeChar? (code : Nat) : Option Char :=
  if h : code.isValidChar then some (Char.ofNatAux code h) else none

/-- The character of an escape, and how many characters stand behind its backslash. -/
def escape? (cursor : Cursor) : Option (Char × Nat) := do
  let letter ← cursor.peek 1
  match codeLength? letter with
  | none => return (← namedEscape? letter, 1)
  | some count =>
    let digits := (cursor.rest.drop 2).take count
    if digits.length < count then none
    else
      let values ← digits.mapM Document.hexValue?
      return (← codeChar? (values.foldl (fun acc v => acc * 16 + v) 0), count + 1)

/-- The rest of a quoted text. In single quotes a quote is written twice; in double quotes there are
escapes, and a backslash also hides a break. -/
def quotedFrom (quote : Char) (word : List Char) (gap : Option Gap) (cursor : Cursor) :
    Except Fault Inline :=
  match _h : cursor.rest with
  | [] => .error .unclosedQuote
  | c :: _ =>
    if isBlank c ∨ isBreak c then quotedFrom quote word (some (Gap.add c gap)) cursor.next
    else
      let word := Gap.close gap word
      if cursor.isAtAnyMarker then .error .markerInQuote
      else if c = quote then
        if quote = '\'' ∧ cursor.peek 1 = some quote then
          quotedFrom quote (quote :: word) none (cursor.forward 2)
        else .ok ⟨String.ofList word.reverse, false, cursor.next⟩
      else if quote = '"' ∧ c = '\\' then
        if (cursor.peek 1).any isBreak then
          quotedFrom quote word (some (.breaks none [])) (cursor.forward 2)
        else
          match escape? cursor with
          | some (escaped, count) =>
            quotedFrom quote (escaped :: word) none (cursor.forward (count + 1))
          | none => .error .escape
      else quotedFrom quote (c :: word) none cursor.next
termination_by cursor.rest.length
decreasing_by
  all_goals first
    | exact Cursor.length_next_lt _h
    | exact Cursor.length_forward_lt _ _h

end PolicyLint.Yaml
