import PolicyLint.Yaml.Cursor
/-!
Block scalars: indented lines behind a bar, which keeps the breaks between them, or behind an angle,
which folds them. A header may fix the indentation and say what becomes of the last breaks.
-/
namespace PolicyLint.Yaml

/-- What becomes of the breaks at the end: all go, one stays, all stay. -/
inductive Chomping where
  | strip | clip | keep
deriving DecidableEq, Repr

structure BlockHeader where
  chomping : Chomping
  indent : Option Nat

def chomping? (c : Option Char) : Option Chomping :=
  if c = some '+' then some .keep else if c = some '-' then some .strip else none

/-- An indentation from one to nine; a zero is refused. -/
def indentDigit? (c : Option Char) : Except Fault (Option Nat) :=
  match c with
  | some c =>
    if c = '0' then .error .blockHeader
    else if '1' ≤ c ∧ c ≤ '9' then .ok (some (c.toNat - '0'.toNat))
    else .ok none
  | none => .ok none

/-- The marks of a header, in either order, and how many there are. -/
def headerMarks (cursor : Cursor) : Except Fault (BlockHeader × Nat) := do
  match chomping? (cursor.peek 0) with
  | some chomping =>
    let indent ← indentDigit? (cursor.peek 1)
    return (⟨chomping, indent⟩, if indent.isSome then 2 else 1)
  | none =>
    let indent ← indentDigit? (cursor.peek 0)
    if indent.isNone then return (⟨.clip, none⟩, 0)
    match chomping? (cursor.peek 1) with
    | some chomping => return (⟨chomping, indent⟩, 2)
    | none => return (⟨.clip, indent⟩, 1)

/-- The header's line, with a comment behind the marks. -/
def readHeader (cursor : Cursor) : Except Fault (BlockHeader × Cursor) := do
  let (header, count) ← headerMarks cursor
  let cursor := (cursor.forward count).skipBlanks.skipComment
  match cursor.rest with
  | [] => return (header, cursor)
  | c :: _ => if isBreak c then return (header, cursor.next) else .error .blockHeader

/-- Passes over indentation and empty lines. An indentation that is not known yet is that of the first
line that is not empty, and no less than that of any empty line before it. -/
def emptyLines (least : Nat) (indent : Option Nat) (widest : Nat) (breaks : List Char)
    (cursor : Cursor) : Except Fault (Nat × List Char × Cursor) :=
  let isIndentation := indent.all fun indent => decide (cursor.column < indent)
  let found := (indent.getD (max least (max widest cursor.column)), breaks, cursor)
  match _h : cursor.rest with
  | [] => .ok found
  | c :: _ =>
    if isIndentation ∧ c = ' ' then emptyLines least indent widest breaks cursor.next
    else if isIndentation ∧ c = '\t' then .error .tab
    else if isBreak c then
      emptyLines least indent (max widest cursor.column) (breakText c :: breaks) cursor.next
    else .ok found
termination_by cursor.rest.length
decreasing_by all_goals exact Cursor.length_next_lt _h

/-- The lines read so far, newest character first: the break behind the last line, the breaks of the
empty lines behind it, and whether the last line began with a blank. -/
structure BlockText where
  text : List Char
  lineBreak : Option Char
  more : List Char
  blank : Bool

/-- The text with one more line behind it. A folded break between two lines that begin with no blank is
a blank, or nothing when there are empty lines. -/
def BlockText.addLine (block : BlockText) (folds : Bool) (line : List Char) (lineBreak : Option Char) :
    BlockText :=
  let blank := line.head?.any isBlank
  let between :=
    if folds ∧ block.lineBreak = some '\n' ∧ !block.blank ∧ !blank then
      if block.more = [] then [' '] else []
    else block.lineBreak.toList
  ⟨line.reverse ++ block.more ++ between ++ block.text, lineBreak, [], blank⟩

def BlockText.close (block : BlockText) : Chomping → String
  | .strip => String.ofList block.text.reverse
  | .clip => String.ofList (block.lineBreak.toList ++ block.text).reverse
  | .keep => String.ofList (block.more ++ block.lineBreak.toList ++ block.text).reverse

/-- The lines at an indentation. -/
def blockLines (folds : Bool) (indent : Nat) (block : BlockText) (cursor : Cursor) :
    Except Fault (BlockText × Cursor) := do
  if cursor.column ≠ indent ∨ cursor.rest = [] then return (block, cursor)
  let (line, behind) := cursor.span fun c => !isBreak c
  let lineBreak := (behind.peek 0).map breakText
  let (_, more, following) ← emptyLines 1 (some indent) 0 [] behind.next
  let block := { block.addLine folds line lineBreak with more }
  if following.rest.length < cursor.rest.length then blockLines folds indent block following
  else return (block, following)
termination_by cursor.rest.length

/-- A block scalar behind its bar or angle, inside a block indented by `parent`; minus one is the
outermost level. -/
def readBlock (folds : Bool) (parent : Int) (cursor : Cursor) : Except Fault (String × Cursor) := do
  let (header, cursor) ← readHeader cursor
  let least := max 1 (parent + 1).toNat
  let indent := header.indent.map fun n => parent.toNat + n
  let (indent, more, cursor) ← emptyLines least indent 0 [] cursor
  let (block, cursor) ← blockLines folds indent ⟨[], none, more, false⟩ cursor
  return (block.close header.chomping, cursor)

end PolicyLint.Yaml
