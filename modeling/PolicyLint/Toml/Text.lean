import PolicyLint.Document.Token
/-!
The texts of TOML: on one line or over several, with escapes or without. Every reader gives the text and
what follows it.
-/
namespace PolicyLint.Toml

/-- A control character has no place in a text or a comment, except for the tab. -/
def isAllowed (c : Char) : Bool :=
  c = '\t' || (' ' ≤ c && c ≠ '\x7f')

/-- What follows a line break. -/
def afterBreak? : List Char → Option (List Char)
  | '\n' :: rest => some rest
  | '\r' :: '\n' :: rest => some rest
  | _ => none

def isBlank (c : Char) : Bool :=
  c = ' ' || c = '\t'

def dropBlanks (cs : List Char) : List Char :=
  cs.dropWhile isBlank

def namedEscape? (c : Char) : Option Char :=
  [('b', '\x08'), ('t', '\t'), ('n', '\n'), ('f', '\x0c'), ('r', '\r'), ('e', '\x1b'), ('"', '"'),
    ('\\', '\\')].lookup c

def codeLength? (c : Char) : Option Nat :=
  [('x', 2), ('u', 4), ('U', 8)].lookup c

/-- The character of an escape behind its backslash, and its length. -/
def escape? : List Char → Option (Char × Nat)
  | [] => none
  | letter :: rest => do
    match codeLength? letter with
    | none => return (← namedEscape? letter, 1)
    | some count =>
      let digits ← (rest.take count).mapM Document.hexValue?
      let code := digits.foldl (fun acc d => acc * 16 + d) 0
      if h : code.isValidChar ∧ digits.length = count then
        return (Char.ofNatAux code h.1, count + 1)
      else none

/-- The rest of a text in double quotes. -/
def basic? : List Char → Option (List Char × List Char)
  | [] => none
  | '"' :: rest => some ([], rest)
  | '\\' :: rest => do
    let (c, count) ← escape? rest
    let (text, rest) ← basic? (rest.drop count)
    return (c :: text, rest)
  | c :: rest => do
    if !isAllowed c then none
    let (text, rest) ← basic? rest
    return (c :: text, rest)
termination_by cs => cs.length
decreasing_by all_goals simp; try omega

/-- The rest of a text in single quotes. -/
def literal? : List Char → Option (List Char × List Char)
  | [] => none
  | '\'' :: rest => some ([], rest)
  | c :: rest => do
    if !isAllowed c then none
    let (text, rest) ← literal? rest
    return (c :: text, rest)

/-- The quotes at the end of a text over several lines: up to two more than the closing three belong to
the text. -/
def closing? (quote : Char) (cs : List Char) : Option (List Char × List Char) :=
  let count := (cs.takeWhile (· = quote)).length
  if count < 3 then none
  else
    let extra := min 2 (count - 3)
    some (List.replicate extra quote, cs.drop (extra + 3))

/-- What follows a backslash at the end of a line, when only blanks stand between. -/
def afterHiddenBreak? (cs : List Char) : Option (List Char) :=
  (afterBreak? (dropBlanks cs)).map fun rest =>
    rest.dropWhile fun c => isBlank c || c = '\n' || c = '\r'

theorem length_afterBreak_lt {cs rest : List Char} (h : afterBreak? cs = some rest) :
    rest.length < cs.length := by
  fun_cases afterBreak? cs with
  | case1 | case2 =>
    cases h
    simp only [List.length_cons]
    omega
  | case3 => simp_all [afterBreak?]

theorem length_afterHiddenBreak_lt {cs rest : List Char} (h : afterHiddenBreak? cs = some rest) :
    rest.length < cs.length := by
  obtain ⟨mid, hm, rfl⟩ := Option.map_eq_some_iff.1 h
  have := length_afterBreak_lt hm
  have := Text.length_dropWhile_le isBlank cs
  have := Text.length_dropWhile_le (fun c => isBlank c || c = '\n' || c = '\r') mid
  simp only [dropBlanks] at *
  omega

/-- The rest of a text over several lines; only double quotes know escapes. -/
def longText? (quote : Char) (cs : List Char) : Option (List Char × List Char) :=
  match closing? quote cs with
  | some result => some result
  | none =>
    match _h : cs with
    | [] => none
    | c :: rest =>
      match _hb : afterBreak? cs with
      | some rest => do
        let (text, rest) ← longText? quote rest
        return ('\n' :: text, rest)
      | none =>
        if quote = '"' ∧ c = '\\' then
          match _hh : afterHiddenBreak? rest with
          | some rest => longText? quote rest
          | none => do
            let (c, count) ← escape? rest
            let (text, rest) ← longText? quote (rest.drop count)
            return (c :: text, rest)
        else if isAllowed c then do
          let (text, rest) ← longText? quote rest
          return (c :: text, rest)
        else none
termination_by cs.length
decreasing_by
  · exact _h ▸ length_afterBreak_lt _hb
  · exact Nat.lt_succ_of_lt (length_afterHiddenBreak_lt _hh)
  · exact Nat.lt_succ_of_le (List.drop_sublist _ _).length_le
  · exact Nat.lt_succ_self _

/-- A break right behind the opening quotes is dropped. -/
def dropFirstBreak (cs : List Char) : List Char :=
  (afterBreak? cs).getD cs

/-- A text in any of its four forms; keys are on one line. -/
def text? (long : Bool) : List Char → Option (String × List Char)
  | '"' :: '"' :: '"' :: rest =>
    if long then (longText? '"' (dropFirstBreak rest)).map fun r => (String.ofList r.1, r.2)
    else some ("", '"' :: rest)
  | '\'' :: '\'' :: '\'' :: rest =>
    if long then (longText? '\'' (dropFirstBreak rest)).map fun r => (String.ofList r.1, r.2)
    else some ("", '\'' :: rest)
  | '"' :: rest => (basic? rest).map fun r => (String.ofList r.1, r.2)
  | '\'' :: rest => (literal? rest).map fun r => (String.ofList r.1, r.2)
  | _ => none

end PolicyLint.Toml
