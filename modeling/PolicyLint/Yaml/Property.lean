import PolicyLint.Yaml.Cursor
import PolicyLint.Document.Token
import PolicyLint.Text.Pieces
import PolicyLint.Text.Utf8
/-!
What may stand before a value: anchors and tags. A tag has a handle, which the directives of the
document spell out.
-/
namespace PolicyLint.Yaml

def isNameChar (c : Char) : Bool :=
  Text.isAsciiAlphanum c || c = '_' || c = '-'

/-- The name of an anchor, which ends before a blank or one of a few marks. -/
def readName (cursor : Cursor) : Except Fault (String × Cursor) :=
  let (name, behind) := cursor.span isNameChar
  let following := behind.peek 0
  if name ≠ [] ∧ (endsWord following ∨ following.any "?:,]\x7d%@\x60".toList.contains) then
    .ok (String.ofList name, behind)
  else .error .anchor

/-! ### Tags -/

def isUriChar (full : Bool) (c : Char) : Bool :=
  isNameChar c || ";/?:@&=+$.%!~*'()".toList.contains c || (full && ",[]".toList.contains c)

/-- The bytes of a URI in which bytes may be written as a percent sign and two digits. -/
def uriBytes? : List Char → Option (List UInt8)
  | [] => some []
  | '%' :: a :: b :: rest => do
    let high ← Document.hexValue? a
    let low ← Document.hexValue? b
    return UInt8.ofNat (high * 16 + low) :: (← uriBytes? rest)
  | c :: rest =>
    if c = '%' then none
    else (uriBytes? rest).map (Text.Utf8.encode (String.singleton c) ++ ·)

def readUri (full : Bool) (cursor : Cursor) : Except Fault (String × Cursor) :=
  let (uri, behind) := cursor.span (isUriChar full)
  match (uriBytes? uri).bind Text.Utf8.decode? with
  | some text => .ok (text, behind)
  | none => .error .tag

/-- A tag as it is written; without a handle the suffix is all of it. -/
structure TagText where
  handle : String
  suffix : String
deriving DecidableEq, Repr

/-- A handle: an exclamation mark, and a name with another mark behind it. -/
def readHandle (cursor : Cursor) : Except Fault (String × Cursor) :=
  if cursor.peek 0 ≠ some '!' then .error .tag
  else
    let (name, behind) := cursor.next.span isNameChar
    if behind.peek 0 = some '!' then .ok (String.ofList ('!' :: name ++ ['!']), behind.next)
    else .ok (String.ofList ('!' :: name), behind)

def verbatimTag (cursor : Cursor) : Except Fault (TagText × Cursor) := do
  let (uri, behind) ← readUri true (cursor.forward 2)
  if uri = "" ∨ behind.peek 0 ≠ some '>' then .error .tag
  return (⟨"", uri⟩, behind.next)

/-- A name without a second mark belongs to the suffix; a lone mark is a tag of its own. -/
def shorthandTag (cursor : Cursor) : Except Fault (TagText × Cursor) := do
  let (handle, behind) ← readHandle cursor
  let (uri, behind) ← readUri false behind
  if 1 < handle.length ∧ Text.endsWith "!" handle then
    if uri = "" then .error .tag
    return (⟨handle, uri⟩, behind)
  let suffix := (handle.drop 1).toString ++ uri
  return (if suffix = "" then ⟨"", "!"⟩ else ⟨"!", suffix⟩, behind)

def readTag (inFlow : Bool) (cursor : Cursor) : Except Fault (TagText × Cursor) := do
  let (tag, behind) ← if cursor.peek 1 = some '<' then verbatimTag cursor else shorthandTag cursor
  let following := behind.peek 0
  if endsWord following ∨ (inFlow ∧ following = some ',') then return (tag, behind)
  .error .tag

/-! ### Directives -/

inductive Directive where
  | version (major minor : Nat)
  | handle (handle spelling : String)
deriving DecidableEq, Repr

def readVersionNumber (cursor : Cursor) : Except Fault (Nat × Cursor) :=
  let (digits, behind) := cursor.span Text.isAsciiDigit
  if digits = [] ∨ 9 < digits.length then .error .directive
  else .ok (digits.foldl (fun acc d => acc * 10 + Document.digitValue d) 0, behind)

def readVersion (cursor : Cursor) : Except Fault (Directive × Cursor) := do
  let (major, behind) ← readVersionNumber cursor.skipBlanks
  if behind.peek 0 ≠ some '.' then .error .directive
  let (minor, behind) ← readVersionNumber behind.next
  return (.version major minor, behind)

def readHandleDirective (cursor : Cursor) : Except Fault (Directive × Cursor) := do
  let (handle, behind) ← readHandle cursor.skipBlanks
  if handle ≠ "!" ∧ !Text.endsWith "!" handle then .error .directive
  if !(behind.peek 0).any isBlank then .error .directive
  let (spelling, behind) ← readUri true behind.skipBlanks
  if spelling = "" ∨ !endsWord (behind.peek 0) then .error .directive
  return (.handle handle spelling, behind)

/-- A directive behind its percent sign, with the rest of its line. -/
def readDirective (cursor : Cursor) : Except Fault (Directive × Cursor) := do
  let (name, behind) := cursor.span isNameChar
  if !endsWord (behind.peek 0) then .error .directive
  let (directive, behind) ←
    if name = "YAML".toList then readVersion behind
    else if name = "TAG".toList then readHandleDirective behind
    else .error .directive
  let behind := behind.skipBlanks.skipComment
  match behind.peek 0 with
  | none => return (directive, behind)
  | some c => if isBreak c then return (directive, behind.next) else .error .directive

/-- The handles of every document. -/
def standardHandles : List (String × String) :=
  [("!", "!"), ("!!", "tag:yaml.org,2002:")]

end PolicyLint.Yaml
