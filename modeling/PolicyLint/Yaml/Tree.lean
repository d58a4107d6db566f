import PolicyLint.Yaml.Token
/-!
The tree of a YAML document. Anchors are numbered; a reference holds the number that its name has at its
place.
-/
namespace PolicyLint.Yaml

/-- `anchor` is the number of a value that can be referred to; `isNamed` says that a collection has a
tag of the document's own. -/
inductive Tree where
  | reference (number : Nat)
  | scalar (anchor : Option Nat) (scalar : Scalar)
  | sequence (anchor : Option Nat) (isNamed : Bool) (items : List Tree)
  | mapping (anchor : Option Nat) (isNamed : Bool) (members : List (Tree × Tree))

/-- The tokens still to be read, what the handles of the document stand for, and the numbers of the
anchors so far. -/
structure TreeReader where
  tokens : List Token
  handles : List (String × String)
  anchors : List (String × Nat)

abbrev Reader := StateT TreeReader (Except Fault)

namespace Reader

def refuse (fault : Fault) : Reader α :=
  fun _ => .error fault

def peek : Reader (Option Token) :=
  return (← get).tokens.head?

def pass : Reader Unit :=
  modify fun s => { s with tokens := s.tokens.tail }

/-- Passes over a token of a kind, and says whether it was there. -/
def accept (p : Token → Bool) : Reader Bool := do
  if (← peek).any p then
    pass
    return true
  return false

/-! ### Kinds of tokens -/

def isEntry : Token → Bool
  | .entry => true
  | _ => false

def isKey : Token → Bool
  | .key => true
  | _ => false

def isValue : Token → Bool
  | .value => true
  | _ => false

def isBlockEnd : Token → Bool
  | .blockEnd => true
  | _ => false

def isComma : Token → Bool
  | .comma => true
  | _ => false

def isCloseSequence : Token → Bool
  | .closeSequence => true
  | _ => false

def isCloseMapping : Token → Bool
  | .closeMapping => true
  | _ => false

/-! ### Properties -/

/-- What stands before a value. -/
structure Properties where
  anchor : Option String
  tag : Option TagText

def anchor? : Reader (Option String) := do
  match ← peek with
  | some (.anchor name) =>
    pass
    return some name
  | _ => return none

def tag? : Reader (Option TagText) := do
  match ← peek with
  | some (.tag tag) =>
    pass
    return some tag
  | _ => return none

/-- An anchor and a tag, in either order. -/
def properties : Reader Properties := do
  match ← anchor? with
  | some name => return ⟨some name, ← tag?⟩
  | none =>
    let tag ← tag?
    let anchor ← if tag.isSome then anchor? else pure none
    return ⟨anchor, tag⟩

/-- A tag spelled out. -/
def spell (tag : TagText) : Reader String := do
  if tag.handle = "" then return tag.suffix
  match (← get).handles.lookup tag.handle with
  | some spelling => return spelling ++ tag.suffix
  | none => refuse .undefinedHandle

/-- An anchor takes the number of names known before it; a name that comes again moves to its last
place. -/
def number (name : String) : Reader Nat := do
  let anchors := (← get).anchors
  let number := anchors.length
  let others := anchors.filter fun a => a.1 ≠ name
  modify fun s => { s with anchors := others ++ [(name, number)] }
  return number

def tagOf (spelling : String) : Tag :=
  match Text.dropLead? "!" spelling with
  | some name => .named (if name = "" then "!" else name)
  | none =>
    ([("tag:yaml.org,2002:bool", Tag.bool), ("tag:yaml.org,2002:int", .int),
      ("tag:yaml.org,2002:float", .float), ("tag:yaml.org,2002:null", .null)].lookup spelling).getD
      .other

/-- Whether a tag is the document's own. -/
def isNamed (spelling : Option String) : Bool :=
  spelling.any (Text.startsWith "!")

/-- The scalar that is left when a value is empty. -/
def bare (anchor : Option Nat) (tag : Option String) : Reader Tree :=
  if anchor.isSome ∨ tag.isSome then return .scalar anchor ⟨"", .plain, tag.map tagOf⟩
  else refuse .missingNode

/-! ### Values -/

/-- Where a value stands: among blocks or between brackets, and whether a list may follow that is not
indented. -/
structure Place where
  isBlock : Bool
  isLoose : Bool

def Place.block : Place := ⟨true, false⟩

def Place.underKey : Place := ⟨true, true⟩

def Place.flow : Place := ⟨false, false⟩

def empty : Tree :=
  .scalar none .empty

/-- A value, which is empty when one of some tokens comes first. -/
def valueBut (stops : Token → Bool) (value : Reader Tree) : Reader Tree := do
  match ← peek with
  | some token => if stops token then return empty else value
  | none => value

mutual

/-- A value with what stands before it. Every function here is given more steps than there are
tokens. -/
def node (place : Place) : Nat → Reader Tree
  | 0 => refuse .missingNode
  | steps + 1 => do
    match ← peek with
    | some (.reference name) =>
      pass
      match (← get).anchors.lookup name with
      | some number => return .reference number
      | none => refuse .unknownAnchor
    | _ =>
      let found ← properties
      let tag ← found.tag.mapM spell
      let anchor ← found.anchor.mapM number
      content place anchor tag steps

/-- A value behind its properties. A lone mark says nothing about a scalar that is there. -/
def content (place : Place) (anchor : Option Nat) (tag : Option String) : Nat → Reader Tree
  | 0 => refuse .missingNode
  | steps + 1 => do
    match place.isBlock, ← peek with
    | _, some .entry =>
      if place.isLoose then return .sequence anchor (isNamed tag) (← looseItems steps)
      else bare anchor tag
    | _, some (.scalar text style) =>
      pass
      return .scalar anchor ⟨text, style, (tag.filter (· ≠ "!")).map tagOf⟩
    | _, some .openSequence =>
      pass
      return .sequence anchor (isNamed tag) (← flowItems true steps)
    | _, some .openMapping =>
      pass
      return .mapping anchor (isNamed tag) (← flowMembers true steps)
    | true, some .sequenceStart =>
      pass
      return .sequence anchor (isNamed tag) (← blockItems steps)
    | true, some .mappingStart =>
      pass
      return .mapping anchor (isNamed tag) (← blockMembers steps)
    | _, _ => bare anchor tag

/-- The items of an indented list, to its end. -/
def blockItems : Nat → Reader (List Tree)
  | 0 => refuse .missingEntry
  | steps + 1 => do
    if ← accept isEntry then
      let stops := fun t => isEntry t || isBlockEnd t
      let item ← valueBut stops (node .block steps)
      return item :: (← blockItems steps)
    else if ← accept isBlockEnd then return []
    else refuse .missingEntry

/-- The items of a list that is no further in than the key above it; it ends where no item comes. -/
def looseItems : Nat → Reader (List Tree)
  | 0 => refuse .missingEntry
  | steps + 1 => do
    if ← accept isEntry then
      let stops := fun t => isEntry t || isKey t || isValue t || isBlockEnd t
      let item ← valueBut stops (node .block steps)
      return item :: (← looseItems steps)
    else return []

def blockMembers : Nat → Reader (List (Tree × Tree))
  | 0 => refuse .missingKey
  | steps + 1 => do
    let stops := fun t => isKey t || isValue t || isBlockEnd t
    if ← accept isKey then
      let key ← valueBut stops (node .underKey steps)
      let value ←
        if ← accept isValue then valueBut stops (node .underKey steps) else pure empty
      return (key, value) :: (← blockMembers steps)
    else if ← accept isBlockEnd then return []
    else refuse .missingKey

/-- The items between square brackets; a comma may stand behind the last one. -/
def flowItems (isFirst : Bool) : Nat → Reader (List Tree)
  | 0 => refuse .missingComma
  | steps + 1 => do
    if ← accept isCloseSequence then return []
    if !isFirst then
      if !(← accept isComma) then refuse .missingComma
      if ← accept isCloseSequence then return []
    let item ← if ← accept isKey then pair steps else node .flow steps
    return item :: (← flowItems false steps)

/-- A single key and its value between square brackets. A key that is empty takes the token behind it
with it. -/
def pair : Nat → Reader Tree
  | 0 => refuse .missingNode
  | steps + 1 => do
    let stops := fun t => isComma t || isCloseSequence t
    let key ←
      if (← peek).any fun t => isValue t || stops t then do
        pass
        pure empty
      else node .flow steps
    let value ← if ← accept isValue then valueBut stops (node .flow steps) else pure empty
    return .mapping none false [(key, value)]

/-- The members between curly brackets; a key may come without a value. -/
def flowMembers (isFirst : Bool) : Nat → Reader (List (Tree × Tree))
  | 0 => refuse .missingComma
  | steps + 1 => do
    if ← accept isCloseMapping then return []
    if !isFirst then
      if !(← accept isComma) then refuse .missingComma
      if ← accept isCloseMapping then return []
    let stops := fun t => isComma t || isCloseMapping t
    if ← accept isKey then
      let key ← valueBut (fun t => isValue t || stops t) (node .flow steps)
      let value ← if ← accept isValue then valueBut stops (node .flow steps) else pure empty
      return (key, value) :: (← flowMembers false steps)
    else
      let key ← node .flow steps
      return (key, empty) :: (← flowMembers false steps)

end

/-! ### Documents -/

/-- The directives before a document: at most one version, and each handle once. -/
def directives (version : Bool) (handles : List (String × String)) :
    List Token → Except Fault (List (String × String) × List Token)
  | .directive (.version major minor) :: rest =>
    if version ∨ major ≠ 1 ∨ (minor ≠ 1 ∧ minor ≠ 2) then .error .directive
    else directives true handles rest
  | .directive (.handle handle spelling) :: rest =>
    if (handles.lookup handle).isSome then .error .directive
    else directives version (handles ++ [(handle, spelling)]) rest
  | rest => .ok (handles, rest)

def endsDocument : Token → Bool
  | .directive _ | .documentStart | .documentEnd => true
  | _ => false

/-- The value of a document. Only behind a mark of its start may it be empty. -/
def documentValue (isMarked : Bool) : Reader Tree := do
  let tokens := (← get).tokens
  if isMarked ∧ tokens.head?.all endsDocument then return empty
  node .block (4 * tokens.length + 4)

end Reader

open Reader in
/-- The first document of some tokens, and the tokens behind it. A document without a start of its own
has no directives. -/
def Tree.first (tokens : List Token) : Except Fault (Tree × List Token) := do
  let isMarked := match tokens with
    | .directive _ :: _ | .documentStart :: _ => true
    | _ => false
  let (handles, rest) ← if isMarked then directives false [] tokens else .ok ([], tokens)
  let rest ←
    match isMarked, rest with
    | false, rest => .ok rest
    | true, .documentStart :: rest => .ok rest
    | true, _ => .error .missingDocument
  let reader := ⟨rest, handles ++ standardHandles, []⟩
  let (tree, reader) ← (documentValue isMarked).run reader
  return (tree, reader.tokens)

/-- Nothing may stand behind a document but marks of its end. -/
def Tree.ending : List Token → Except Fault Unit
  | [] => .ok ()
  | .documentEnd :: rest => Tree.ending rest
  | .documentStart :: _ | .directive _ :: _ => .error .secondDocument
  | _ => .error .missingDocument

/-- The tree of the only document of a text; a text without any is an empty word. -/
def Tree.ofText (text : String) : Except Fault Tree := do
  let tokens ← tokens text
  if tokens.isEmpty then return Reader.empty
  let (tree, rest) ← Tree.first tokens
  Tree.ending rest
  return tree

end PolicyLint.Yaml
