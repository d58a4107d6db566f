import PolicyLint.Document.Decode
import PolicyLint.Toml.Atom
import PolicyLint.Toml.Text
/-!
TOML texts as documents: lines with headers and members, gathered into one table.
-/
namespace PolicyLint.Toml

/-! ### Keys -/

def isKeyChar (c : Char) : Bool :=
  Text.isAsciiAlphanum c || c = '_' || c = '-'

def simpleKey? (cs : List Char) : Option (String × List Char) :=
  match text? false cs with
  | some result => some result
  | none =>
    let word := cs.takeWhile isKeyChar
    if word = [] then none else some (String.ofList word, cs.dropWhile isKeyChar)

/-- The parts of a key with dots between them. `steps` is more than the number of parts. -/
def keyParts? : Nat → List Char → Option (List String × List Char)
  | 0, _ => none
  | steps + 1, cs => do
    let (part, rest) ← simpleKey? (dropBlanks cs)
    match dropBlanks rest with
    | '.' :: rest =>
      let (parts, rest) ← keyParts? steps rest
      return (part :: parts, rest)
    | rest => return ([part], rest)

/-- A key: the way to its table, and the name in there. -/
def key? (cs : List Char) : Option (List String × String × List Char) := do
  let (parts, rest) ← keyParts? (cs.length + 1) cs
  return (parts.dropLast, ← parts.getLast?, rest)

/-! ### Values -/

def dropComment? (cs : List Char) : Option (List Char) :=
  match cs with
  | '#' :: rest =>
    let behind := rest.dropWhile isAllowed
    if behind = [] ∨ (afterBreak? behind).isSome then some behind else none
  | cs => some cs

/-- Blanks, comments and breaks between the items of a list. -/
def dropGaps? : Nat → List Char → Option (List Char)
  | 0, _ => none
  | steps + 1, cs => do
    let rest ← dropComment? (dropBlanks cs)
    match afterBreak? rest with
    | some rest => dropGaps? steps rest
    | none => return rest

/-- How deep lists and tables in braces may be nested. -/
def maxDepth : Nat := 80

mutual

/-- A value. `depth` is how many more containers may be opened, and `steps` exceeds the number of
characters. -/
def value? (depth : Nat) : Nat → List Char → Option (Value × List Char)
  | 0, _ => none
  | steps + 1, cs =>
    match cs with
    | '[' :: rest =>
      if depth = 0 then none else (items? (depth - 1) steps rest).map fun r => (.array false r.1, r.2)
    | '\x7b' :: rest =>
      if depth = 0 then none else (members? (depth - 1) ⟨.braces, []⟩ steps rest).map fun r => (r.1.value, r.2)
    | cs =>
      match text? true cs with
      | some (text, rest) => some (.string text, rest)
      | none =>
        if cs.head?.any fun c => c = '"' || c = '\'' then none
        else
          let (word, rest) := takeAtom cs
          (atom? word).map fun value => (value, rest)

/-- The items of a list up to its end; a comma may stand behind the last one. -/
def items? (depth : Nat) : Nat → List Char → Option (List Value × List Char)
  | 0, _ => none
  | steps + 1, cs => do
    match ← dropGaps? (cs.length + 1) cs with
    | ']' :: rest => return ([], rest)
    | cs =>
      let (value, rest) ← value? depth steps cs
      match ← dropGaps? (rest.length + 1) rest with
      | ']' :: rest => return ([value], rest)
      | ',' :: rest =>
        let (values, rest) ← items? depth steps rest
        return (value :: values, rest)
      | _ => none

/-- The members of a table in braces up to its end, added to those before. -/
def members? (depth : Nat) (table : Table) : Nat → List Char → Option (Table × List Char)
  | 0, _ => none
  | steps + 1, cs => do
    match ← dropGaps? (cs.length + 1) cs with
    | '\x7d' :: rest => return (table, rest)
    | cs =>
      let (path, key, rest) ← key? cs
      let (value, rest) ← value? depth steps (dropBlanks (← expect? '=' rest))
      let table ← table.add? ⟨path, key, value⟩
      match ← dropGaps? (rest.length + 1) rest with
      | '\x7d' :: rest => return (table, rest)
      | ',' :: rest => members? depth table steps rest
      | _ => none

end

/-! ### Lines -/

inductive Line where
  | header (header : Table.Header)
  | member (member : Table.Member)

def headerLine? (joins : Bool) (cs : List Char) : Option (Line × List Char) := do
  let (path, key, rest) ← key? cs
  let rest ← expect? ']' rest
  let rest ← if joins then expect? ']' rest else some rest
  return (.header ⟨path, key, joins⟩, rest)

def line? (cs : List Char) : Option (Line × List Char) :=
  match cs with
  | '[' :: '[' :: rest => headerLine? true rest
  | '[' :: rest => headerLine? false rest
  | cs => do
    let (path, key, rest) ← key? cs
    let rest := dropBlanks (← expect? '=' rest)
    let (value, rest) ← value? maxDepth (2 * rest.length + 2) rest
    return (.member ⟨path, key, value⟩, rest)

/-- The lines that are not empty; behind each comes a break or the end. -/
def lines? : Nat → List Char → Option (List Line)
  | 0, _ => none
  | steps + 1, cs => do
    match ← dropGaps? (cs.length + 1) cs with
    | [] => return []
    | cs =>
      let (line, rest) ← line? cs
      match ← dropComment? (dropBlanks rest) with
      | [] => return [line]
      | rest => return line :: (← lines? steps (← afterBreak? rest))

/-- A header, or none before the first one, with its members. -/
structure Group where
  header : Option Table.Header
  members : List Table.Member

/-- Lines gathered behind their headers; the last group is still open. -/
def groups : Group → List Line → List Group
  | current, [] => [current]
  | current, .header header :: rest => current :: groups ⟨some header, []⟩ rest
  | current, .member member :: rest =>
    groups { current with members := current.members ++ [member] } rest

def Table.addGroup? (root : Table) (group : Group) : Option Table :=
  match group.header with
  | none => group.members.foldlM Table.add? root
  | some header => root.open? header group.members

/-- The table of a text, which may begin with a byte order mark. -/
def table? (text : String) : Option Table := do
  let cs := text.toList
  let cs := if cs.head? = some '\uFEFF' then cs.drop 1 else cs
  let lines ← lines? (cs.length + 1) cs
  (groups ⟨none, []⟩ lines).foldlM Table.addGroup? ⟨.header, []⟩

/-! ### Documents -/

open Document (Node Key)

/-- Offsets say nothing here. -/
def keyOf (key : String) : Key :=
  ⟨.ok key, 0, 0⟩

mutual

/-- A date or time is an object of its own kind, with a member that no record knows. -/
def Value.node : Value → Node
  | .string text => .string ⟨0, 0⟩ (.ok text)
  | .integer i =>
    match Number.ofInt? i with
    | some n => .number ⟨0, 0⟩ (.ok n)
    | none => .number ⟨0, 0⟩ (.error ⟨.numberOutOfRange, 0⟩)
  | .real (some d) => .number ⟨0, 0⟩ (.ok (.real d))
  | .real none => .number ⟨0, 0⟩ (.error ⟨.numberOutOfRange, 0⟩)
  | .bool b => .bool ⟨0, 0⟩ b
  | .moment text => .object ⟨0, 0⟩ [(keyOf "$moment", .string ⟨0, 0⟩ (.ok text))] none
  | .array _ items => .array ⟨0, 0⟩ (nodesOf items) none
  | .table _ members => .object ⟨0, 0⟩ (membersOf members) none

def nodesOf : List Value → List Node
  | [] => []
  | v :: rest => v.node :: nodesOf rest

def membersOf : List (String × Value) → List (Key × Node)
  | [] => []
  | (k, v) :: rest => (keyOf k, v.node) :: membersOf rest

end

/-- Reads a TOML text; what is wrong with one that cannot be read is of no interest here. -/
def decodeText? (decoder : Document.Decoder α) (text : String) : Option α := do
  let table ← table? text
  (decoder (.start .toml) table.value.node).toOption

end PolicyLint.Toml
