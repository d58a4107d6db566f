/-!
Glob patterns: literals, `?`, `*`, `**`, bracketed classes and nested alternatives in braces. A
pattern is read in one pass; an unclosed bracket or brace, a stray closing brace and a class range
that runs backwards make it invalid.
-/
namespace PolicyLint.Glob

def slash : UInt8 := 47

/-- A byte of a bracketed class. -/
structure ByteRange where
  low : UInt8
  high : UInt8
deriving DecidableEq, Repr

inductive Token where
  | byte (b : UInt8)
  /-- One byte that is no slash. -/
  | any
  /-- Any run of bytes that are no slashes. -/
  | run
  /-- `**` at the start: nothing, or directories up to a slash. -/
  | leading
  /-- `**` between slashes: one slash, or whole directories between two. -/
  | middle
  /-- `**` at the end: a slash and anything behind it. -/
  | trailing
  | cls (negated : Bool) (ranges : List ByteRange)
  | alternatives (branches : List (List Token))

def charBytes (c : Char) : List UInt8 :=
  String.utf8EncodeChar c

def literal (c : Char) : List Token :=
  (charBytes c).map .byte

/-- The bytes of a range's ends side by side, with the range between the neighbours. -/
def rangeBytes (low high : Char) : List ByteRange :=
  let single := fun b : UInt8 => (⟨b, b⟩ : ByteRange)
  if low = high then (charBytes low).map single
  else
    match (charBytes low).reverse, charBytes high with
    | l :: before, h :: after => before.reverse.map single ++ ⟨l, h⟩ :: after.map single
    | _, _ => []

/-- The inside of a class while it is read: `first` before its first character, `inRange` after a
dash that may join the last range with the next character. -/
structure ClassState where
  ranges : List (Char × Char)
  first : Bool
  inRange : Bool

def ClassState.single (state : ClassState) (c : Char) : ClassState :=
  ⟨(c, c) :: state.ranges, false, false⟩

/-- A character of a class; none for a range that runs backwards. -/
def ClassState.add? (state : ClassState) (c : Char) : Option ClassState :=
  if state.inRange then
    match state.ranges with
    | (low, _) :: ranges => if c < low then none else some ⟨(low, c) :: ranges, false, false⟩
    | [] => some (state.single c)
  else if c = '-' ∧ !state.first then some { state with first := false, inRange := true }
  else some (state.single c)

def ClassState.finish (state : ClassState) : List ByteRange :=
  let state := if state.inRange then state.single '-' else state
  state.ranges.reverse.flatMap fun r => rangeBytes r.1 r.2

/-- The rest of a class up to its closing bracket, which may not come first. -/
def readClass (state : ClassState) : List Char → Option (List ByteRange × List Char)
  | [] => none
  | c :: rest =>
    if c = ']' ∧ !state.first then some (state.finish, rest)
    else (state.add? c).bind fun next => readClass next rest

theorem readClass_shorter {state : ClassState} {cs rest : List Char} {ranges : List ByteRange}
    (h : readClass state cs = some (ranges, rest)) : rest.length < cs.length := by
  induction cs generalizing state with
  | nil => simp [readClass] at h
  | cons c cs ih =>
    unfold readClass at h
    split at h
    · simp at h
      simp [h.2]
    · cases hn : state.add? c with
      | none => simp [hn] at h
      | some next =>
        simp only [hn, Option.bind_some] at h
        exact Nat.lt_succ_of_lt (ih h)

def openClass (cs : List Char) : Option (Bool × List ByteRange × List Char) :=
  match cs with
  | '!' :: rest | '^' :: rest => (readClass ⟨[], true, false⟩ rest).map (true, ·)
  | _ => (readClass ⟨[], true, false⟩ cs).map (false, ·)

theorem openClass_shorter {cs rest : List Char} {negated : Bool} {ranges : List ByteRange}
    (h : openClass cs = some (negated, ranges, rest)) : rest.length < cs.length := by
  have inner : ∀ {inside : List Char} {tag : Bool},
      (readClass ⟨[], true, false⟩ inside).map (tag, ·) = some (negated, ranges, rest) →
        rest.length < inside.length := by
    intro inside tag h
    obtain ⟨⟨_, _⟩, hc, he⟩ := Option.map_eq_some_iff.1 h
    cases he
    exact readClass_shorter hc
  unfold openClass at h
  split at h
  · exact Nat.lt_succ_of_lt (inner h)
  · exact Nat.lt_succ_of_lt (inner h)
  · exact inner h

/-- Braces that are open: the tokens before the brace, and the branches read so far, both in
reverse. -/
structure Group where
  before : List Token
  branches : List (List Token)

/-- Where a pattern is being read: the open groups, the current branch in reverse, and whether a
slash came just before. -/
structure State where
  groups : List Group
  branch : List Token
  afterSlash : Bool

def State.push (state : State) (tokens : List Token) (afterSlash : Bool) : State :=
  { state with branch := tokens.reverse ++ state.branch, afterSlash }

/-- `**` takes the place of the slash before it, or joins a `**` that did. -/
def State.star (state : State) (token : Token) (afterSlash : Bool) : State :=
  match state.branch with
  | .leading :: _ | .trailing :: _ => { state with afterSlash }
  | _ :: before => { state with branch := token :: before, afterSlash }
  | [] => { state with branch := [token], afterSlash }

/-- `**` with `rest` behind it; only as a whole component does it span directories. Gives what
remains to be read. -/
def State.twoStars (state : State) (rest : List Char) : State × List Char :=
  let plain := (state.push [.run, .run] false, rest)
  match state.branch with
  | [] =>
    match rest with
    | [] => (state.push [.leading] false, [])
    | '/' :: rest => (state.push [.leading] true, rest)
    | _ => plain
  | _ =>
    if state.afterSlash then
      match rest with
      | [] => (state.star .trailing false, [])
      | '/' :: rest => (state.star .middle true, rest)
      | c :: _ =>
        if !state.groups.isEmpty ∧ (c = ',' ∨ c = '\x7d') then (state.star .trailing false, rest)
        else plain
    else plain

theorem twoStars_le (state : State) (rest : List Char) :
    (state.twoStars rest).2.length ≤ rest.length := by
  unfold State.twoStars
  dsimp only
  repeat' split
  all_goals simp

def State.openGroup (state : State) : State :=
  ⟨⟨state.branch, []⟩ :: state.groups, [], false⟩

def State.nextBranch? (state : State) : Option State :=
  match state.groups with
  | [] => none
  | g :: groups => some ⟨{ g with branches := state.branch.reverse :: g.branches } :: groups, [], false⟩

def State.closeGroup? (state : State) : Option State :=
  match state.groups with
  | [] => none
  | g :: groups =>
    some ⟨groups, .alternatives (state.branch.reverse :: g.branches).reverse :: g.before, false⟩

/-- The tokens of a pattern, or none for an invalid one. -/
def read (state : State) : List Char → Option (List Token)
  | [] => if state.groups.isEmpty then some state.branch.reverse else none
  | '*' :: '*' :: rest =>
    have := twoStars_le state rest
    read (state.twoStars rest).1 (state.twoStars rest).2
  | '*' :: rest => read (state.push [.run] false) rest
  | '?' :: rest => read (state.push [.any] false) rest
  | '[' :: rest =>
    match h : openClass rest with
    | none => none
    | some (negated, ranges, after) =>
      have := openClass_shorter h
      read (state.push [.cls negated ranges] false) after
  | '\x7b' :: rest => read state.openGroup rest
  | '\x7d' :: rest =>
    match state.closeGroup? with
    | none => none
    | some state => read state rest
  | ',' :: rest =>
    match state.nextBranch? with
    | none => read (state.push (literal ',') false) rest
    | some state => read state rest
  | c :: rest => read (state.push (literal c) (c = '/')) rest
termination_by cs => cs.length
decreasing_by all_goals simp only [List.length_cons]; omega

def parse? (pattern : String) : Option (List Token) :=
  read ⟨[], [], false⟩ pattern.toList

end PolicyLint.Glob
