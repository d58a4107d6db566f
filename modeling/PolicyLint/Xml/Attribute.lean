import PolicyLint.Xml.Escape
/-!
The attributes of a tag, read leniently: what cannot be read as an attribute is passed over and
reading goes on behind it. Of two attributes with one name the first counts.
-/
namespace PolicyLint.Xml

def isSpace (c : Char) : Bool :=
  c = ' ' || c = '\r' || c = '\n' || c = '\t'

abbrev Attribute := List Char × List Char

/-- Where reading goes on behind a value without quotes: at the next space. -/
def toSpace (cs : List Char) : List Char :=
  cs.dropWhile fun c => !isSpace c

/-- The value behind an equal sign and what follows it; `none` when no closing quote comes. -/
inductive Value where
  | quoted (text : List Char) (rest : List Char)
  | unquoted (rest : List Char)
  | missing

def readValue (cs : List Char) : Value :=
  match cs.dropWhile isSpace with
  | [] => .missing
  | q :: rest =>
    if q = '"' ∨ q = '\x27' then
      match rest.dropWhile (· != q) with
      | [] => .missing
      | _ :: after => .quoted (rest.takeWhile (· != q)) after
    else .unquoted (toSpace (q :: rest))

theorem readValue_quoted {cs text rest : List Char} (h : readValue cs = .quoted text rest) :
    rest.length < cs.length := by
  unfold readValue at h
  have hs := Text.length_dropWhile_le isSpace cs
  split at h
  · cases h
  · rename_i q r hq
    rw [hq] at hs
    simp only [List.length_cons] at hs
    split at h
    · have hr := Text.length_dropWhile_le (· != q) r
      split at h
      · cases h
      · rename_i hd
        cases h
        rw [hd] at hr
        simp only [List.length_cons] at hr
        omega
    · cases h

theorem readValue_unquoted {cs rest : List Char} (h : readValue cs = .unquoted rest) :
    rest.length ≤ cs.length := by
  unfold readValue at h
  have hs := Text.length_dropWhile_le isSpace cs
  split at h
  · cases h
  · rename_i q r hq
    rw [hq] at hs
    split at h
    · split at h <;> cases h
    · cases h
      exact Nat.le_trans (Text.length_dropWhile_le _ _) hs

/-- A key ends at a space or an equal sign. -/
def inKey (c : Char) : Bool :=
  !(c = '=' || isSpace c)

/-- The attributes in order, without those whose name came before. -/
def attributes (names : List (List Char)) (cs : List Char) : List Attribute :=
  match _hs : cs.dropWhile isSpace with
  | [] => []
  | first :: rest =>
    let key := first :: rest.takeWhile inKey
    match _he : (rest.dropWhile inKey).dropWhile isSpace with
    | '=' :: after =>
      match _hv : readValue after with
      | .quoted text left =>
        if names.contains key then attributes names left
        else (key, text) :: attributes (key :: names) left
      | .unquoted left => attributes (key :: names) left
      | .missing => []
    | other => attributes names other
termination_by cs.length
decreasing_by
  all_goals
    have h1 := Text.length_dropWhile_le isSpace cs
    have h2 := Text.length_dropWhile_le isSpace (rest.dropWhile inKey)
    have h3 := Text.length_dropWhile_le inKey rest
    rw [_hs] at h1
    rw [_he] at h2
    simp only [List.length_cons] at h1 h2
  · have := readValue_quoted _hv
    omega
  · have := readValue_quoted _hv
    omega
  · have := readValue_unquoted _hv
    omega
  · subst other
    omega

/-- The value of an attribute, with its references resolved. -/
def attribute? (name : String) (tag : List Char) : Option String :=
  ((attributes [] tag).lookup name.toList).bind fun value =>
    (unescapeChars? none value).map String.ofList

end PolicyLint.Xml
