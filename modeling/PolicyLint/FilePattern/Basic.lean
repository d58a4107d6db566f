/-!
File patterns, which name files of a tree: `?`, `*`, `**` and bracketed classes, and no braces. `**`
must stand alone between slashes, and a class must be closed.
-/
namespace PolicyLint.FilePattern

inductive Piece where
  | char (c : Char)
  | any
  | run
  /-- `**`: directories, one below the other. -/
  | deep
  | cls (negated : Bool) (ranges : List (Char × Char))
deriving DecidableEq, Repr

inductive Cause where
  | manyStars | joinedStars | badClass
deriving DecidableEq, Repr

def Cause.message : Cause → String
  | .manyStars => "wildcards are either regular \x60*\x60 or recursive \x60**\x60"
  | .joinedStars => "recursive wildcards must form a single path component"
  | .badClass => "invalid range pattern"

/-- What is wrong with a pattern, and near which character. -/
structure Fault where
  position : Nat
  cause : Cause
deriving DecidableEq, Repr

def Fault.message (fault : Fault) : String :=
  s!"Pattern syntax error near position {fault.position}: " ++ fault.cause.message

/-- The inside of a class, which has one character at least, and what follows the bracket. -/
def classBody? : List Char → Option (List Char × List Char)
  | [] => none
  | c :: rest =>
    match rest.dropWhile (· != ']') with
    | _ :: after => some (c :: rest.takeWhile (· != ']'), after)
    | [] => none

theorem classBody?_shorter {cs body after : List Char} (h : classBody? cs = some (body, after)) :
    after.length < cs.length := by
  unfold classBody? at h
  split at h
  · cases h
  · rename_i c rest
    split at h
    · rename_i d tail hd
      cases h
      have := (List.dropWhile_sublist (· != ']') (l := rest)).length_le
      rw [hd] at this
      simp only [List.length_cons] at this ⊢
      omega
    · cases h

/-- The ranges of a class; a dash at either end stands for itself. -/
def ranges : List Char → List (Char × Char)
  | low :: '-' :: high :: rest => (low, high) :: ranges rest
  | c :: rest => (c, c) :: ranges rest
  | [] => []

/-- A class, behind its opening bracket. -/
def class? (cs : List Char) : Option (Piece × List Char) :=
  match cs with
  | '!' :: rest => (classBody? rest).map fun r => (.cls true (ranges r.1), r.2)
  | _ => (classBody? cs).map fun r => (.cls false (ranges r.1), r.2)

theorem class?_shorter {cs after : List Char} {piece : Piece}
    (h : class? cs = some (piece, after)) : after.length < cs.length := by
  unfold class? at h
  split at h <;> obtain ⟨r, hr, he⟩ := Option.map_eq_some_iff.1 h <;> cases he
  · exact Nat.lt_succ_of_lt (classBody?_shorter hr)
  · exact classBody?_shorter hr

/-- Whether `**` may stand behind a character, or at the start. -/
def mayPrecede : Option Char → Bool
  | none => true
  | some c => c = '/'

/-- The pieces of a pattern from a position on; `before` is the character before it. -/
def read (position : Nat) (before : Option Char) : List Char → Except Fault (List Piece)
  | [] => .ok []
  | '*' :: '*' :: '*' :: _ => .error ⟨position + 2, .manyStars⟩
  | ['*', '*'] =>
    if mayPrecede before then .ok [.deep] else .error ⟨position - 1, .joinedStars⟩
  | '*' :: '*' :: '/' :: rest =>
    if mayPrecede before then (.deep :: ·) <$> read (position + 3) (some '/') rest
    else .error ⟨position - 1, .joinedStars⟩
  | '*' :: '*' :: _ =>
    .error ⟨if mayPrecede before then position + 2 else position - 1, .joinedStars⟩
  | '*' :: rest => (.run :: ·) <$> read (position + 1) (some '*') rest
  | '?' :: rest => (.any :: ·) <$> read (position + 1) (some '?') rest
  | '[' :: rest =>
    match h : class? rest with
    | none => .error ⟨position, .badClass⟩
    | some (piece, after) =>
      have := class?_shorter h
      (piece :: ·) <$> read (position + 1 + (rest.length - after.length)) (some ']') after
  | c :: rest => (.char c :: ·) <$> read (position + 1) (some c) rest
termination_by cs => cs.length

def parse (pattern : String) : Except Fault (List Piece) :=
  read 0 none pattern.toList

def Piece.char? : Piece → Option Char
  | .char c => some c
  | _ => none

/-- A pattern without wildcards, as text. -/
def literal? (pieces : List Piece) : Option String :=
  (pieces.mapM Piece.char?).map String.ofList

def inClass (ranges : List (Char × Char)) (c : Char) : Bool :=
  ranges.any fun r => r.1 ≤ c && c ≤ r.2

/-- Whether pieces match a name as a whole. -/
def matchesName : List Piece → List Char → Bool
  | [], cs => cs.isEmpty
  | .run :: pieces, [] | .deep :: pieces, [] => matchesName pieces []
  | .run :: pieces, c :: cs => matchesName pieces (c :: cs) || matchesName (.run :: pieces) cs
  | .deep :: pieces, c :: cs => matchesName pieces (c :: cs) || matchesName (.deep :: pieces) cs
  | .char d :: pieces, c :: cs => c = d && matchesName pieces cs
  | .any :: pieces, _ :: cs => matchesName pieces cs
  | .cls negated ranges :: pieces, c :: cs => inClass ranges c != negated && matchesName pieces cs
  | .char _ :: _, [] | .any :: _, [] | .cls .. :: _, [] => false
termination_by pieces cs => pieces.length + cs.length

end PolicyLint.FilePattern
