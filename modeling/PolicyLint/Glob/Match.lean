import PolicyLint.Glob.Pattern
import PolicyLint.Text.Pieces
/-!
Matching a whole path against a glob, byte by byte. Every token leaves a set of places where the rest
of the pattern may go on; the path matches when the end is among the places that are left.
-/
namespace PolicyLint.Glob

/-- The places reached by passing over bytes that are no slashes. -/
def afterRun : List UInt8 → List (List UInt8)
  | [] => [[]]
  | b :: rest => (b :: rest) :: if b = slash then [] else afterRun rest

/-- Every place from here to the end. -/
def everywhere : List UInt8 → List (List UInt8)
  | [] => [[]]
  | b :: rest => (b :: rest) :: everywhere rest

/-- The places just behind a slash. -/
def afterSlashes : List UInt8 → List (List UInt8)
  | [] => []
  | b :: rest => if b = slash then rest :: afterSlashes rest else afterSlashes rest

def inClass (negated : Bool) (ranges : List ByteRange) (b : UInt8) : Bool :=
  ranges.any (fun r => r.low ≤ b && b ≤ r.high) != negated

/-- One of each place; two places of one path are told apart by what is left. -/
def distinct (places : List (List UInt8)) : List (List UInt8) :=
  places.foldr (fun p kept => if kept.any (·.length == p.length) then kept else p :: kept) []

mutual

/-- Whether a branch says nothing at all; such a branch is dropped beside others. -/
def isSilent : List Token → Bool
  | [] => true
  | .alternatives branches :: rest => areSilent branches && isSilent rest
  | _ :: _ => false

def areSilent : List (List Token) → Bool
  | [] => true
  | branch :: rest => isSilent branch && areSilent rest

end

mutual

/-- The places behind a token. -/
def Token.after (places : List (List UInt8)) : Token → List (List UInt8)
  | .byte b => places.filterMap fun p => if p.head? = some b then some (p.drop 1) else none
  | .any =>
    places.filterMap fun
      | b :: rest => if b = slash then none else some rest
      | [] => none
  | .run => distinct (places.flatMap afterRun)
  | .leading => distinct (places.flatMap fun p => p :: afterSlashes p)
  | .middle =>
    distinct (places.flatMap fun
      | b :: rest => if b = slash then rest :: afterSlashes rest else []
      | [] => [])
  | .trailing =>
    distinct (places.flatMap fun
      | b :: rest => if b = slash then everywhere rest else []
      | [] => [])
  | .cls negated ranges =>
    places.filterMap fun
      | b :: rest => if inClass negated ranges b then some rest else none
      | [] => none
  | .alternatives branches =>
    if areSilent branches then places else distinct (afterBranches places branches)

/-- The places behind a sequence of tokens. -/
def afterAll (places : List (List UInt8)) : List Token → List (List UInt8)
  | [] => places
  | t :: rest => afterAll (t.after places) rest

def afterBranches (places : List (List UInt8)) : List (List Token) → List (List UInt8)
  | [] => []
  | branch :: rest =>
    (if isSilent branch then [] else afterAll places branch) ++ afterBranches places rest

end

/-- `**` alone matches every path. -/
def accepts (tokens : List Token) (path : List UInt8) : Bool :=
  match tokens with
  | [.leading] => true
  | _ => (afterAll [path] tokens).any List.isEmpty

/-- A backslash separates directories as a slash does. -/
def toSlash (s : String) : String :=
  Text.replaceChar '\\' '/' s

/-- Whether a path matches a pattern as a whole; an invalid pattern matches nothing. -/
def isMatch (path pattern : String) : Bool :=
  match parse? (toSlash pattern) with
  | some tokens => accepts tokens (toSlash path).toUTF8.toList
  | none => false

end PolicyLint.Glob
