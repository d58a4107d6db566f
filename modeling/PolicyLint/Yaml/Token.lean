import PolicyLint.Yaml.Block
import PolicyLint.Yaml.Inline
import PolicyLint.Yaml.Property
import PolicyLint.Yaml.Scalar
/-!
The tokens of a YAML text. Indentation opens and closes blocks. A key without a mark of its own shows as
a key only at the colon behind it, so the place where one may have begun is remembered, and the tokens
that open a block and a key are put in there.
-/
namespace PolicyLint.Yaml

inductive Token where
  | directive (directive : Directive)
  | documentStart | documentEnd
  | sequenceStart | mappingStart | blockEnd
  | openSequence | closeSequence | openMapping | closeMapping
  | entry | comma | key | value
  | reference (name : String)
  | anchor (name : String)
  | tag (tag : TagText)
  | scalar (text : String) (style : Style)

/-- A place where a key may have begun: how many tokens came before it, and where it is. A required key
is one that begins a line of its block. -/
structure KeyMark where
  number : Nat
  index : Nat
  line : Nat
  column : Nat
  isRequired : Bool

/-- Keys are no longer than this, and on one line. -/
def maxKeyLength : Nat := 1024

structure Scanner where
  cursor : Cursor
  /-- Newest first. -/
  tokens : List Token
  /-- The indentation of the open blocks, innermost first; minus one stands outside of all. -/
  indent : Int
  outerIndents : List Int
  /-- Where a key may have begun, in this collection and in those around it that stand in brackets. -/
  mark : Option KeyMark
  outerMarks : List (Option KeyMark)
  /-- Whether a key may begin here. -/
  admitsKey : Bool

namespace Scanner

def start (cs : List Char) : Scanner :=
  ⟨.start cs, [], -1, [], none, [], true⟩

def inFlow (s : Scanner) : Bool :=
  !s.outerMarks.isEmpty

def push (s : Scanner) (token : Token) : Scanner :=
  { s with tokens := token :: s.tokens }

/-- Puts tokens in behind the first `number` ones. -/
def insertAt (s : Scanner) (number : Nat) (tokens : List Token) : Scanner :=
  let later := s.tokens.length - number
  { s with tokens := s.tokens.take later ++ tokens.reverse ++ s.tokens.drop later }

/-- Moves on behind an indicator. -/
def pass (s : Scanner) (count : Nat) : Scanner :=
  { s with cursor := s.cursor.forward count }

def admitKey (s : Scanner) (admits : Bool) : Scanner :=
  { s with admitsKey := admits }

/-! ### Keys -/

/-- A mark that is too far back is given up. -/
def isStale (s : Scanner) (mark : KeyMark) : Bool :=
  mark.line < s.cursor.line || mark.index + maxKeyLength < s.cursor.index

def dropStale (s : Scanner) : Option KeyMark → Except Fault (Option KeyMark)
  | none => .ok none
  | some mark =>
    if !s.isStale mark then .ok (some mark)
    else if mark.isRequired then .error .missingColon
    else .ok none

def dropStaleMarks (s : Scanner) : Except Fault Scanner := do
  let outerMarks ← s.outerMarks.mapM s.dropStale
  return { s with mark := ← s.dropStale s.mark, outerMarks }

/-- Gives up the mark of this collection. -/
def dropMark (s : Scanner) : Except Fault Scanner :=
  if s.mark.any KeyMark.isRequired then .error .missingColon else .ok { s with mark := none }

/-- Remembers that a key may begin here. -/
def markKey (s : Scanner) : Except Fault Scanner := do
  if !s.admitsKey then return s
  let s ← s.dropMark
  let isRequired := !s.inFlow && s.indent == (s.cursor.column : Int)
  return { s with
    mark := some ⟨s.tokens.length, s.cursor.index, s.cursor.line, s.cursor.column, isRequired⟩ }

/-! ### Indentation -/

/-- Opens a block at a column that is further in. -/
def openBlock (s : Scanner) (column number : Nat) (token : Token) : Scanner :=
  if s.inFlow ∨ column ≤ s.indent then s
  else
    { s.insertAt number [token] with
      indent := column, outerIndents := s.indent :: s.outerIndents }

/-- Closes the blocks that are further in than a column. -/
def closeBlocks (s : Scanner) (column : Int) : Scanner :=
  if s.inFlow then s
  else
    let all := s.indent :: s.outerIndents
    let closed := all.takeWhile (column < ·)
    match all.drop closed.length with
    | indent :: outerIndents =>
      { s with tokens := closed.map (fun _ => .blockEnd) ++ s.tokens, indent, outerIndents }
    | [] => s

/-- Closes every block, and with them every chance of a key. -/
def closeAll (s : Scanner) : Except Fault Scanner := do
  let s ← (s.closeBlocks (-1)).dropMark
  return s.admitKey false

/-! ### One token -/

/-- Passes over blanks, comments and breaks. A break in a block is a place where a key may begin; there
a tab is no indentation. -/
def skipGap (inFlow : Bool) (admits : Bool) (cursor : Cursor) : Bool × Cursor :=
  match _h : cursor.rest with
  | [] => (admits, cursor)
  | c :: _ =>
    if cursor.column = 0 ∧ c = '\uFEFF' then skipGap inFlow admits cursor.next
    else if c = ' ' ∨ ((inFlow ∨ !admits) ∧ c = '\t') then skipGap inFlow admits cursor.next
    else if isBreak c then skipGap inFlow (admits || !inFlow) cursor.next
    else if c = '#' then
      let behind := cursor.skipComment
      if behind.rest.length < cursor.rest.length then skipGap inFlow admits behind
      else (admits, behind)
    else (admits, cursor)
termination_by cursor.rest.length
decreasing_by
  all_goals first
    | exact Cursor.length_next_lt _h
    | assumption

def document (s : Scanner) (token : Token) : Except Fault Scanner := do
  return (← s.closeAll).push token |>.pass 3

def directive (s : Scanner) : Except Fault Scanner := do
  let s ← s.closeAll
  let (directive, cursor) ← readDirective s.cursor.next
  return { s.push (.directive directive) with cursor }

def openFlow (s : Scanner) (token : Token) : Except Fault Scanner := do
  let s ← s.markKey
  let s := { s with mark := none, outerMarks := s.mark :: s.outerMarks, admitsKey := true }
  return (s.push token).pass 1

def closeFlow (s : Scanner) (token : Token) : Except Fault Scanner := do
  let s ← s.dropMark
  let s := match s.outerMarks with
    | mark :: outerMarks => { s with mark, outerMarks }
    | [] => s
  return ((s.admitKey false).push token).pass 1

def comma (s : Scanner) : Except Fault Scanner := do
  return (((← s.dropMark).admitKey true).push .comma).pass 1

/-- An entry of a block; in brackets there are none, which is for the reader of the tokens to say. -/
def entry (s : Scanner) : Except Fault Scanner := do
  if !s.inFlow ∧ !s.admitsKey then .error .entryPlace
  let s := s.openBlock s.cursor.column s.tokens.length .sequenceStart
  return (((← s.dropMark).admitKey true).push .entry).pass 1

def markedKey (s : Scanner) : Except Fault Scanner := do
  if !s.inFlow ∧ !s.admitsKey then .error .keyPlace
  let s := s.openBlock s.cursor.column s.tokens.length .mappingStart
  return (((← s.dropMark).admitKey !s.inFlow).push .key).pass 1

/-- A colon makes a key of what was marked; without a mark the key is empty. -/
def value (s : Scanner) : Except Fault Scanner := do
  match s.mark with
  | some mark =>
    let s := (s.insertAt mark.number [.key]).openBlock mark.column mark.number .mappingStart
    return (({ s with mark := none, admitsKey := false }).push .value).pass 1
  | none =>
    if !s.inFlow ∧ !s.admitsKey then .error .valuePlace
    let s := s.openBlock s.cursor.column s.tokens.length .mappingStart
    return ((s.admitKey !s.inFlow).push .value).pass 1

/-- A property or a reference, which may begin a key. -/
def property (s : Scanner) (read : Cursor → Except Fault (Token × Cursor)) :
    Except Fault Scanner := do
  let s ← s.markKey
  let (token, cursor) ← read s.cursor
  return { (s.admitKey false).push token with cursor }

def named (make : String → Token) (cursor : Cursor) : Except Fault (Token × Cursor) := do
  let (name, cursor) ← readName cursor.next
  return (make name, cursor)

def tag (inFlow : Bool) (cursor : Cursor) : Except Fault (Token × Cursor) := do
  let (tag, cursor) ← readTag inFlow cursor
  return (.tag tag, cursor)

def quoted (quote : Char) (cursor : Cursor) : Except Fault (Token × Cursor) := do
  let found ← quotedFrom quote [] none cursor.next
  return (.scalar found.text .quoted, found.cursor)

def block (s : Scanner) (style : Style) : Except Fault Scanner := do
  let s ← s.dropMark
  let (text, cursor) ← readBlock (style = .folded) s.indent s.cursor.next
  return { (s.admitKey true).push (.scalar text style) with cursor }

/-- Behind a break a key may begin. -/
def plain (s : Scanner) : Except Fault Scanner := do
  let s ← s.markKey
  let found ← plainFrom s.inFlow (s.indent + 1) [] none s.cursor
  return { (s.admitKey found.broken).push (.scalar found.text .plain) with cursor := found.cursor }

/-- Whether a plain word may begin with a character before `following`. -/
def beginsPlain (inFlow : Bool) (c : Char) (following : Option Char) : Bool :=
  !("-?:,[]\x7b\x7d#&*!|>'\"%@\x60".toList.contains c) ||
    (c = '-' && !following.any isBlank) ||
    (!inFlow && (c = '?' || c = ':') && !endsWord following)

/-- The token that begins with the character at the cursor. -/
def token (s : Scanner) (c : Char) : Except Fault Scanner :=
  let following := s.cursor.peek 1
  let stands := endsWord following
  if s.cursor.column = 0 ∧ c = '%' then s.directive
  else if s.cursor.isAtMarker '-' then s.document .documentStart
  else if s.cursor.isAtMarker '.' then s.document .documentEnd
  else if c = '[' then s.openFlow .openSequence
  else if c = '\x7b' then s.openFlow .openMapping
  else if c = ']' then s.closeFlow .closeSequence
  else if c = '\x7d' then s.closeFlow .closeMapping
  else if c = ',' then s.comma
  else if c = '-' ∧ stands then s.entry
  else if c = '?' ∧ (s.inFlow ∨ stands) then s.markedKey
  else if c = ':' ∧ (s.inFlow ∨ stands) then s.value
  else if c = '*' then s.property (named .reference)
  else if c = '&' then s.property (named .anchor)
  else if c = '!' then s.property (tag s.inFlow)
  else if c = '|' ∧ !s.inFlow then s.block .literal
  else if c = '>' ∧ !s.inFlow then s.block .folded
  else if c = '\'' ∨ c = '"' then s.property (quoted c)
  else if beginsPlain s.inFlow c following then s.plain
  else .error .strayCharacter

/-- Goes on to the next token, closing blocks on the way. -/
def advance (s : Scanner) : Except Fault Scanner := do
  let (admitsKey, cursor) := skipGap s.inFlow s.admitsKey s.cursor
  let s ← { s with admitsKey, cursor }.dropStaleMarks
  return s.closeBlocks cursor.column

/-- The scanner behind all of its text. Every token takes at least one character. -/
def run (s : Scanner) : Except Fault Scanner := do
  let ready ← s.advance
  match ready.cursor.rest with
  | [] => ready.closeAll
  | c :: _ =>
    let behind ← ready.token c
    if behind.cursor.rest.length < s.cursor.rest.length then behind.run else .error .strayCharacter
termination_by s.cursor.rest.length

end Scanner

/-- Characters that a text may hold. -/
def isAllowed (c : Char) : Bool :=
  ['\t', '\n', '\r', '\x85'].contains c || (' ' ≤ c && c ≤ '~') || ('\xa0' ≤ c && c ≤ '\uFFFD') ||
    0x10000 ≤ c.toNat

/-- The tokens of a text, in order. -/
def tokens (text : String) : Except Fault (List Token) := do
  let cs := text.toList
  if !cs.all isAllowed then .error .controlCharacter
  return (← (Scanner.start cs).run).tokens.reverse

end PolicyLint.Yaml
