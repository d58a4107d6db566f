import PolicyLint.Xml.Attribute
/-!
The tags of an XML text in document order. Every closing tag must name the element that was opened
last; the end of the text is accepted inside open elements. Text, comments, character data, processing
instructions and the document type are passed over.
-/
namespace PolicyLint.Xml

inductive Fault where
  | unknownMarkup | unclosedInstruction | unclosedComment | unclosedDoctype | unclosedData
  | unclosedTag | noDoctypeName
  | notOpened (name : String)
  | mismatched (expected found : String)
deriving DecidableEq, Repr

def closingTag (name : String) : String :=
  "\x60</" ++ name ++ ">\x60"

def Fault.message : Fault → String
  | .unknownMarkup => "syntax error: unknown or missed symbol in markup"
  | .unclosedInstruction =>
    "syntax error: processing instruction or xml declaration not closed: \x60?>\x60 not found before end of input"
  | .unclosedComment => "syntax error: comment not closed: \x60-->\x60 not found before end of input"
  | .unclosedDoctype => "syntax error: DOCTYPE not closed: \x60>\x60 not found before end of input"
  | .unclosedData => "syntax error: CDATA not closed: \x60]]>\x60 not found before end of input"
  | .unclosedTag => "syntax error: tag not closed: \x60>\x60 not found before end of input"
  | .noDoctypeName =>
    "ill-formed document: \x60<!DOCTYPE>\x60 declaration does not contain a name of a document type"
  | .notOpened name =>
    "ill-formed document: close tag " ++ closingTag name ++ " does not match any open tag"
  | .mismatched expected found =>
    "ill-formed document: expected " ++ closingTag expected ++ ", but " ++ closingTag found ++
      " was found"

/-- What stands between `<` and `>`. -/
inductive Markup where
  | opening (content : List Char)
  | empty (content : List Char)
  | closing (name : List Char)
  | other

/-- Up to a `>` that is in no quotes. -/
def tagContent (quote : Option Char) : List Char → Option (List Char × List Char)
  | [] => none
  | c :: rest =>
    if quote = none ∧ c = '>' then some ([], rest)
    else
      let quote :=
        if quote = none then (if c = '"' ∨ c = '\x27' then some c else none)
        else if quote = some c then none
        else quote
      (tagContent quote rest).map fun r => (c :: r.1, r.2)

/-- Up to a `>` that closes, given what stands before it in reverse. -/
def untilClosed (closes : List Char → Bool) (before : List Char) :
    List Char → Option (List Char × List Char)
  | [] => none
  | c :: rest =>
    if c = '>' ∧ closes before then some (before.reverse, rest)
    else untilClosed closes (c :: before) rest

/-- Up to the `>` that has no `<` of its own. -/
def untilBalanced (depth : Nat) : List Char → Option (List Char × List Char)
  | [] => none
  | c :: rest =>
    if c = '>' ∧ depth = 0 then some ([], rest)
    else
      let depth := if c = '<' then depth + 1 else if c = '>' then depth - 1 else depth
      (untilBalanced depth rest).map fun r => (c :: r.1, r.2)

def trimSpace (cs : List Char) : List Char :=
  (cs.reverse.dropWhile isSpace).reverse

/-- A declaration, from behind its exclamation mark. -/
def bang (cs : List Char) : Except Fault (Markup × List Char) :=
  match cs with
  | '-' :: _ =>
    match untilClosed (fun b => b.take 2 = ['-', '-'] ∧ 4 < b.length + 1) [] cs with
    | some (content, rest) =>
      if content.take 2 = ['-', '-'] then .ok (.other, rest) else .error .unclosedComment
    | none => .error .unclosedComment
  | '[' :: _ =>
    match untilClosed (fun b => b.take 2 = [']', ']']) [] cs with
    | some (content, rest) =>
      if content.take 7 = "[CDATA[".toList then .ok (.other, rest) else .error .unclosedData
    | none => .error .unclosedData
  | 'D' :: _ | 'd' :: _ =>
    match untilBalanced 0 cs with
    | some (content, rest) =>
      if (content.take 7).map Char.toLower = "doctype".toList then
        if (content.drop 7).all isSpace then .error .noDoctypeName else .ok (.other, rest)
      else .error .unclosedDoctype
    | none => .error .unclosedDoctype
  | _ => .error .unknownMarkup

/-- One piece of markup, from behind its `<`, and what follows. -/
def markup (cs : List Char) : Except Fault (Markup × List Char) :=
  match cs with
  | [] => .error .unclosedTag
  | '!' :: rest => bang rest
  | '?' :: rest =>
    match untilClosed (fun b => b.head? = some '?') ['?'] rest with
    | some (content, rest) =>
      if content.length < 2 then .error .unclosedInstruction else .ok (.other, rest)
    | none => .error .unclosedInstruction
  | '/' :: rest =>
    match tagContent none rest with
    | some (name, rest) =>
      .ok (.closing (if name.all isSpace then name else trimSpace name), rest)
    | none => .error .unclosedTag
  | _ =>
    match tagContent none cs with
    | some (content, rest) =>
      if content.getLast? = some '/' then .ok (.empty content.dropLast, rest)
      else .ok (.opening content, rest)
    | none => .error .unclosedTag

theorem tagContent_shorter {quote : Option Char} {cs : List Char} {r : List Char × List Char}
    (h : tagContent quote cs = some r) : r.2.length < cs.length := by
  induction cs generalizing quote r with
  | nil => simp [tagContent] at h
  | cons c cs ih =>
    unfold tagContent at h
    split at h
    · cases h
      exact Nat.lt_succ_self _
    · obtain ⟨s, hs, rfl⟩ := Option.map_eq_some_iff.1 h
      have := ih hs
      exact Nat.lt_succ_of_lt this

theorem untilClosed_shorter {closes : List Char → Bool} {before cs : List Char}
    {r : List Char × List Char} (h : untilClosed closes before cs = some r) :
    r.2.length < cs.length := by
  induction cs generalizing before with
  | nil => simp [untilClosed] at h
  | cons c cs ih =>
    unfold untilClosed at h
    split at h
    · cases h
      exact Nat.lt_succ_self _
    · exact Nat.lt_succ_of_lt (ih h)

theorem untilBalanced_shorter {depth : Nat} {cs : List Char} {r : List Char × List Char}
    (h : untilBalanced depth cs = some r) : r.2.length < cs.length := by
  induction cs generalizing depth r with
  | nil => simp [untilBalanced] at h
  | cons c cs ih =>
    unfold untilBalanced at h
    split at h
    · cases h
      exact Nat.lt_succ_self _
    · obtain ⟨s, hs, rfl⟩ := Option.map_eq_some_iff.1 h
      have := ih hs
      exact Nat.lt_succ_of_lt this

theorem bang_shorter {cs : List Char} {r : Markup × List Char} (h : bang cs = .ok r) :
    r.2.length < cs.length := by
  unfold bang at h
  repeat' split at h
  all_goals first
    | cases h; done
    | cases h; exact untilClosed_shorter ‹_›
    | cases h; exact untilBalanced_shorter ‹_›

theorem markup_shorter {cs : List Char} {r : Markup × List Char} (h : markup cs = .ok r) :
    r.2.length < cs.length := by
  unfold markup at h
  repeat' split at h
  all_goals first
    | cases h; done
    | exact Nat.lt_succ_of_lt (bang_shorter h)
    | cases h; exact Nat.lt_succ_of_lt (untilClosed_shorter ‹_›)
    | cases h; exact Nat.lt_succ_of_lt (tagContent_shorter ‹_›)
    | cases h; exact tagContent_shorter ‹_›

/-- A tag that opens an element: its name, and all that stands in it. -/
structure Tag where
  name : List Char
  rest : List Char

def Tag.of (content : List Char) : Tag :=
  ⟨content.takeWhile fun c => !isSpace c, content.dropWhile fun c => !isSpace c⟩

/-- The tags from here on, inside the open elements. -/
def tags (opened : List (List Char)) (cs : List Char) : Except Fault (List Tag) :=
  match _hs : cs.dropWhile (· != '<') with
  | [] => .ok []
  | _ :: rest =>
    match _hm : markup rest with
    | .error fault => .error fault
    | .ok (.opening content, after) =>
      let tag := Tag.of content
      (tag :: ·) <$> tags (tag.name :: opened) after
    | .ok (.empty content, after) => (Tag.of content :: ·) <$> tags opened after
    | .ok (.closing name, after) =>
      match opened with
      | [] => .error (.notOpened (String.ofList name))
      | expected :: opened =>
        if name = expected then tags opened after
        else .error (.mismatched (String.ofList expected) (String.ofList name))
    | .ok (.other, after) => tags opened after
termination_by cs.length
decreasing_by
  all_goals
    have h1 := Text.length_dropWhile_le (· != '<') cs
    rw [_hs] at h1
    have h2 := markup_shorter _hm
    simp only [List.length_cons] at h1 h2
    omega

def Tag.attribute? (tag : Tag) (name : String) : Option String :=
  Xml.attribute? name tag.rest

end PolicyLint.Xml
