import PolicyLint.Document.Text
import PolicyLint.Numeric.Shortest
/-!
Typed reading of documents. A decoder takes a value of the shape it wants and reports the first thing
that does not fit, in the order of the document. A record is read member by member: unknown members
are skipped, known ones must decode and come once, and missing ones have a default or are errors.
-/
namespace PolicyLint.Document

/-- What was found where something else was wanted. -/
inductive Found where
  | null
  | bool (value : Bool)
  | number (value : Number)
  | string (value : String)
  | list
  | map

inductive Mismatch where
  | malformed (cause : Cause)
  | wrongType (found : Found) (expected : String)
  | wrongValue (found : Found) (expected : String)
  | wrongLength (count : Nat) (expected : String)
  | unknownVariant (name : String) (known : List String)
  | missing (name : String)
  | repeated (name : String)

/-- A mismatch and the number of bytes read when it shows. -/
structure DecodeError where
  cause : Mismatch
  offset : Nat

def Fault.error (fault : Fault) : DecodeError :=
  ⟨.malformed fault.cause, fault.offset⟩

def code (s : String) : String :=
  "\x60" ++ s ++ "\x60"

def Found.describe : Found → String
  | .null => "null"
  | .bool b => "boolean " ++ code (if b then "true" else "false")
  | .number (.integer i _) => "integer " ++ code (toString i)
  | .number (.real d) => "floating point " ++ code (Numeric.scientificText d)
  | .string s => "string \"" ++ s ++ "\""
  | .list => "sequence"
  | .map => "map"

def Mismatch.message : Mismatch → String
  | .malformed cause => cause.message
  | .wrongType found expected => "invalid type: " ++ found.describe ++ ", expected " ++ expected
  | .wrongValue found expected => "invalid value: " ++ found.describe ++ ", expected " ++ expected
  | .wrongLength count expected => s!"invalid length {count}, expected " ++ expected
  | .unknownVariant name known =>
    "unknown variant " ++ code name ++ ", expected one of " ++ ", ".intercalate (known.map code)
  | .missing name => "missing field " ++ code name
  | .repeated name => "duplicate field " ++ code name

/-- Where a decoder stands: the form of the document, and how many more containers may be opened. -/
structure Reading where
  source : Source
  depth : Option Nat

def Reading.start : Source → Reading
  | .text => ⟨.text, some 127⟩
  | .value => ⟨.value, none⟩
  | .yaml => ⟨.yaml, some 128⟩
  | .toml => ⟨.toml, none⟩

def Reading.enter (reading : Reading) (span : Span) : Except DecodeError Reading :=
  match reading.depth with
  | none => .ok reading
  | some 0 => .error ⟨.malformed .tooDeep, span.start + 1⟩
  | some (depth + 1) => .ok { reading with depth := some depth }

abbrev Decoder (α : Type) := Reading → Node → Except DecodeError α

/-! ### Breaks, and values that are skipped -/

def atCut (fault : Break → Fault) : Option Break → Except DecodeError Unit
  | none => .ok ()
  | some cut => .error (fault cut).error

mutual

def skip : Node → Except DecodeError Unit
  | .array _ items cut => do skipItems items; atCut Break.skipped cut
  | .object _ members cut => do skipMembers members; atCut Break.skipped cut
  | .tagged content => skip content
  | .broken _ cut => .error cut.skipped.error
  | .null _ | .bool .. | .number .. | .string .. | .scalar _ => .ok ()

def skipItems : List Node → Except DecodeError Unit
  | [] => .ok ()
  | v :: rest => do skip v; skipItems rest

def skipMembers : List (Key × Node) → Except DecodeError Unit
  | [] => .ok ()
  | (_, v) :: rest => do skip v; skipMembers rest

end

/-! ### Single values -/

def orFault (value : Except Fault α) : Except DecodeError α :=
  value.mapError Fault.error

/-- What a scalar stands for, as something found. -/
def foundScalar (scalar : Yaml.Scalar) : Found :=
  match scalar.value? with
  | some .null => .null
  | some (.bool b) => .bool b
  | some (.number n) => .number n
  | _ => .string scalar.text

/-- A value of another type than wanted; a value that cannot be read at all says so instead. -/
def wrongType (expected : String) : Node → DecodeError
  | .null span => ⟨.wrongType .null expected, span.stop⟩
  | .bool span b => ⟨.wrongType (.bool b) expected, span.stop⟩
  | .number span (.ok n) => ⟨.wrongType (.number n) expected, span.stop⟩
  | .string span (.ok s) => ⟨.wrongType (.string s) expected, span.stop⟩
  | .number _ (.error fault) | .string _ (.error fault) => fault.error
  | .scalar value => ⟨.wrongType (foundScalar value) expected, 0⟩
  | .tagged content => wrongType expected content
  | .array span .. => ⟨.wrongType .list expected, span.start⟩
  | .object span .. => ⟨.wrongType .map expected, span.start⟩
  | .broken _ cut => cut.kept.error

def string : Decoder String := fun _ node =>
  match node with
  | .string _ value => orFault value
  | .scalar value => .ok value.text
  | _ => .error (wrongType "a string" node)

/-- The value that was found, or an error on the type. -/
def orWrongType (expected : String) (node : Node) (value : Option α) : Except DecodeError α :=
  match value with
  | some value => .ok value
  | none => .error (wrongType expected node)

def bool : Decoder Bool := fun _ node =>
  match node with
  | .bool _ value => .ok value
  | .scalar value => orWrongType "a boolean" node value.bool?
  | _ => .error (wrongType "a boolean" node)

/-- A natural below `2 ^ bits`. A number that is not written as an integer has the wrong type. -/
def natural (bits : Nat) : Decoder Nat := fun _ node =>
  let check := fun (value : Number) (stop : Nat) =>
    match value with
    | .integer i _ =>
      if 0 ≤ i ∧ i < Nat.pow 2 bits then .ok i.toNat
      else .error ⟨.wrongValue (.number value) s!"u{bits}", stop⟩
    | .real _ => .error ⟨.wrongType (.number value) s!"u{bits}", stop⟩
  match node with
  | .number span value => do check (← orFault value) span.stop
  | .scalar value => orWrongType s!"u{bits}" node (value.natural?.filter (· < Nat.pow 2 bits))
  | _ => .error (wrongType s!"u{bits}" node)

/-- Null, or a scalar that stands for it, is nothing. -/
def option (decoder : Decoder α) : Decoder (Option α) := fun reading node =>
  match node with
  | .null _ => .ok none
  | .scalar value => do
    if ← orWrongType "an optional value" node value.isPresent? then some <$> decoder reading node
    else return none
  | _ => some <$> decoder reading node

/-- The container under a tag. -/
def content : Node → Node
  | .tagged node => node
  | node => node

/-- An empty word is an empty container too. -/
def isVoid : Node → Bool
  | .scalar value => value.isVoid
  | _ => false

def list (decoder : Decoder α) : Decoder (List α) := fun reading node =>
  match content node with
  | .array span items cut => do
    let inner ← reading.enter span
    let values ← items.mapM (decoder inner)
    atCut Break.kept cut
    return values
  | _ => if isVoid node then .ok [] else .error (wrongType "a sequence" node)

/-! ### Values of any type -/

mutual

def json (reading : Reading) : Node → Except DecodeError Json
  | .null _ => .ok .null
  | .bool _ value => .ok (.bool value)
  | .number _ value => .number <$> orFault value
  | .string _ value => .string <$> orFault value
  | .scalar value =>
    match value.value? with
    | some value => .ok value
    | none => .error ⟨.wrongType (.string value.text) "any valid JSON value", 0⟩
  | .tagged node => .error (wrongType "any valid JSON value" node)
  | .array span items cut => do
    let inner ← reading.enter span
    let values ← jsonItems inner items
    atCut Break.kept cut
    return .array values
  | .object span members cut => do
    let inner ← reading.enter span
    let fields ← jsonMembers inner [] members
    atCut Break.kept cut
    return .object fields
  | .broken _ cut => .error cut.kept.error

def jsonItems (reading : Reading) : List Node → Except DecodeError (List Json)
  | [] => .ok []
  | v :: rest => do
    let value ← json reading v
    return value :: (← jsonItems reading rest)

def jsonMembers (reading : Reading) (before : Fields) :
    List (Key × Node) → Except DecodeError Fields
  | [] => .ok before
  | (k, v) :: rest => do
    let key ← orFault k.text
    let value ← json reading v
    jsonMembers reading (before.insert key value) rest

end

def fields : Decoder Fields := fun reading node =>
  match content node with
  | .object .. => do
    match ← json reading (content node) with
    | .object fields => return fields
    | _ => return []
  | _ => if isVoid node then .ok [] else .error (wrongType "a map" node)

/-! ### Alternatives given by a word -/

def wordChoice (known : List (String × α)) (text : String) (offset : Nat) : Except DecodeError α :=
  match known.lookup text with
  | some value => .ok value
  | none => .error ⟨.unknownVariant text (known.map Prod.fst), offset⟩

def unit : Decoder Unit := fun _ node =>
  match node with
  | .null _ => .ok ()
  | _ => .error (wrongType "unit" node)

/-- Where a character stands that begins neither a string nor an object. -/
def otherStart? : Node → Option Nat
  | .null span | .bool span _ | .number span _ | .array span .. => some span.start
  | .broken start _ => start
  | _ => none

/-- One of the known words, or an object that has it as its only key, with null under it. A scalar may
also name it by its tag, with nothing behind that. -/
def choice (known : List (String × α)) : Decoder α := fun reading node =>
  match reading.source, node with
  | _, .string span value => do wordChoice known (← orFault value) span.stop
  | _, .scalar value =>
    match value.tag with
    | some (.named name) => do
      let choice ← wordChoice known name 0
      if value.isUnit then return choice else .error (wrongType "unit" node)
    | _ => wordChoice known value.text 0
  | .text, .object span [] none => .error ⟨.malformed .expectedValue, span.stop⟩
  | .text, .object _ [] (some cut) =>
    .error ⟨.malformed (if cut.kept.cause = .keyNotString then .expectedValue else .eofInValue),
      cut.kept.offset⟩
  | .text, .object span ((key, content) :: more) cut => do
    let inner ← reading.enter span
    let value ← wordChoice known (← orFault key.text) key.stop
    unit inner content
    match more, cut, content with
    | [], none, _ => return value
    | [], some cut, _ =>
      if cut.kept.cause = .eofInObject then .error cut.kept.error
      else .error ⟨.malformed .expectedValue, cut.kept.offset - 1⟩
    | _ :: _, _, .null span => .error ⟨.malformed .expectedValue, span.stop⟩
    | _ :: _, _, _ => return value
  | .value, .object _ [(key, content)] _ => do
    let value ← wordChoice known (← orFault key.text) key.stop
    unit reading content
    return value
  | .value, .object .. => .error ⟨.wrongValue .map "map with a single key", 0⟩
  | .text, node =>
    match otherStart? node with
    | some start => .error ⟨.malformed .expectedValue, start + 1⟩
    | none => .error (wrongType "string or map" node)
  | _, node => .error (wrongType "string or map" node)

/-! ### Records -/

/-- The members that were found, the error for one that is missing, and whether the record was
given as a list. -/
structure Members where
  find : String → Option Node
  missing : String → DecodeError
  listed : Bool

/-- How to read a record: the members it knows, in order, each with a check of its value, and how the
record is made of the members found. -/
structure Record (α : Type) where
  members : List (String × Decoder Unit)
  build : Reading → Members → Except DecodeError α

namespace Record

instance : Functor Record where
  map f r := ⟨r.members, fun reading found => f <$> r.build reading found⟩

instance : Pure Record where
  pure a := ⟨[], fun _ _ => .ok a⟩

instance : Seq Record where
  seq f r :=
    ⟨f.members ++ (r ()).members, fun reading found => do
      let make ← f.build reading found
      return make (← (r ()).build reading found)⟩

/-- A member, with what a missing one is. -/
def member (name : String) (decoder : Decoder α) (absent : Members → Except DecodeError α) :
    Record α :=
  ⟨[(name, fun reading node => (decoder reading node).map fun _ => ())],
    fun reading found =>
      match found.find name with
      | some node => decoder reading node
      | none => absent found⟩

def needs (name : String) (decoder : Decoder α) : Record α :=
  member name decoder fun found => .error (found.missing name)

def takes (name : String) (decoder : Decoder α) (absent : α) : Record α :=
  member name decoder fun _ => .ok absent

/-- Nothing for a missing member and for null. -/
def may (name : String) (decoder : Decoder α) : Record (Option α) :=
  takes name (option decoder) none

/-- Nothing for a missing member and for null, but a list must have the item. -/
def wants (name : String) (decoder : Decoder α) : Record (Option α) :=
  member name (option decoder) fun found =>
    if found.listed then .error (found.missing name) else .ok none

/-- Goes through the members in order; gives the known ones. -/
def walk (record : Record α) (reading : Reading) (seen : List (String × Node)) :
    List (Key × Node) → Except DecodeError (List (String × Node))
  | [] => .ok seen
  | (key, node) :: rest => do
    let name ← orFault key.text
    match record.members.lookup name with
    | none =>
      skip node
      walk record reading seen rest
    | some check =>
      if (seen.lookup name).isSome then .error ⟨.repeated name, key.next⟩
      else
        check reading node
        walk record reading ((name, node) :: seen) rest

/-- Goes through the items in the order of the members; gives the pairs, and the items left over. -/
def walkItems (reading : Reading) :
    List (String × Decoder Unit) → List Node → Except DecodeError (List (String × Node) × List Node)
  | [], items => .ok ([], items)
  | _, [] => .ok ([], [])
  | (name, check) :: members, node :: items => do
    check reading node
    let (seen, left) ← walkItems reading members items
    return ((name, node) :: seen, left)

/-- What follows the last wanted item must be the end of the list, except in TOML. -/
def closeItems (reading : Reading) (count : Nat) : List Node → Option Break → Except DecodeError Unit
  | [], cut => atCut Break.closing cut
  | node :: _, _ =>
    match reading.source with
    | .text =>
      match node with
      | .broken _ cut => .error cut.closing.error
      | .null span | .bool span _ | .number span _ | .string span _ | .array span .. |
        .object span .. => .error ⟨.malformed .trailingCharacters, span.start + 1⟩
      | .scalar _ | .tagged _ => .ok ()
    | .toml => .ok ()
    | .value | .yaml => .error ⟨.wrongLength count "fewer elements in array", 0⟩

/-- A record is an object, or a list of its members' values in order; YAML has no such lists. -/
def decoder (name : String) (record : Record α) : Decoder α := fun reading node =>
  let size := record.members.length
  let node := content node
  match node with
  | .object span members cut => do
    let inner ← reading.enter span
    let seen ← record.walk inner [] members
    atCut Break.kept cut
    record.build inner ⟨fun name => seen.lookup name, fun name => ⟨.missing name, span.stop⟩, false⟩
  | .array span items cut => do
    if reading.source = .yaml then .error (wrongType ("struct " ++ name) node)
    let inner ← reading.enter span
    let (seen, left) ← walkItems inner record.members items
    if items.length < size then atCut Break.kept cut
    let short := fun missing : String =>
      (⟨.wrongLength ((record.members.map Prod.fst).idxOf missing)
        s!"struct {name} with {size} elements", span.stop⟩ : DecodeError)
    let value ← record.build inner ⟨fun name => seen.lookup name, short, true⟩
    closeItems reading items.length left (if items.length < size then none else cut)
    return value
  | _ =>
    if isVoid node then record.build reading ⟨fun _ => none, fun name => ⟨.missing name, 0⟩, false⟩
    else .error (wrongType ("struct " ++ name) node)

end Record

/-! ### Whole documents -/

/-- Line and column of an offset, from one and in bytes. -/
def position (text : String) (offset : Nat) : Nat × Nat :=
  let before := text.toUTF8.toList.take offset
  let lastLine := before.reverse.takeWhile (· != 10)
  (before.count 10 + 1, lastLine.length)

def DecodeError.inText (error : DecodeError) (text : String) : String :=
  let place := position text error.offset
  error.cause.message ++ s!" at line {place.1} column {place.2}"

/-- Reads a JSON text that holds one value and nothing behind it. -/
def decodeText (decoder : Decoder α) (text : String) : Except DecodeError α := do
  let document := ofText text
  let value ← decoder (Reading.start .text) document.root
  match document.trailing with
  | none => return value
  | some fault => .error fault.error

/-- Reads a JSON value; errors have no place. -/
def decodeValue (decoder : Decoder α) (value : Json) : Except Mismatch α :=
  (decoder (Reading.start .value) (Node.ofJson value)).mapError DecodeError.cause

end PolicyLint.Document
