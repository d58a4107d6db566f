import PolicyLint.Proofs.Text.Reading
import PolicyLint.Tool.Eslint
/-!
Content patterns in selectors, where a pattern stands between slashes as a regular expression. Main
statement: a pattern is read back from its selector, and then as it was given, exactly when each of its
slashes is escaped or in a character class and it ends outside of both.
-/
namespace PolicyLint.Tool.Eslint

/-! ### Reading a regular expression -/

/-- Where a reader stands in a regular expression: in a character class, behind a backslash. -/
structure Place where
  inClass : Bool
  escaped : Bool
deriving DecidableEq

namespace Place

def start : Place := ⟨false, false⟩

/-- Whether a slash belongs to the expression here. -/
def shields (p : Place) : Bool :=
  p.inClass || p.escaped

/-- A backslash takes the next character with it, also in a class, where brackets do not nest. -/
def step (p : Place) (c : Char) : Place :=
  if p.escaped then { p with escaped := false }
  else if c = '\\' then { p with escaped := true }
  else if c = '[' then ⟨true, false⟩
  else if c = ']' then ⟨false, false⟩
  else p

def after (p : Place) (cs : List Char) : Place :=
  cs.foldl step p

end Place

/-- The body of a regular expression up to the slash that ends it, and what follows that. -/
def readBody? (p : Place) : List Char → Option (List Char × List Char)
  | [] => none
  | c :: rest =>
    if c = '/' ∧ p.shields = false then some ([], rest)
    else (readBody? (p.step c) rest).map fun read => (c :: read.1, read.2)

/-- What a selector for literals opens a regular expression with. -/
def contentLead : String := "Literal[value=/"

/-- The regular expression in a selector for literals. A bracket closes the selector behind it. -/
def readContent? (selector : String) : Option String :=
  (Text.afterLead? contentLead.toList selector.toList).bind fun cs =>
    (readBody? .start cs).bind fun read =>
      if read.2 = [']'] then some (String.ofList read.1) else none

/-! ### What is read -/

/-- Every slash belongs to the expression where it stands. -/
def Shielded (p : Place) (cs : List Char) : Prop :=
  ∀ before behind, cs = before ++ '/' :: behind → (p.after before).shields = true

theorem shielded_nil (p : Place) : Shielded p [] := by
  intro before behind split
  simp at split

theorem shielded_cons {p : Place} {c : Char} {cs : List Char} :
    Shielded p (c :: cs) ↔ (c = '/' → p.shields = true) ∧ Shielded (p.step c) cs := by
  constructor
  · intro shielded
    refine ⟨?_, fun before behind split => ?_⟩
    · rintro rfl
      exact shielded [] cs rfl
    · exact shielded (c :: before) behind (by rw [split, List.cons_append])
  · rintro ⟨first, later⟩ before behind split
    cases before with
    | nil => exact first (List.cons.inj split).1
    | cons b before =>
      obtain ⟨rfl, tails⟩ := List.cons.inj split
      exact later before behind tails

/-- The body ends at the first slash that does not belong to it. -/
theorem readBody?_eq_some_iff {p : Place} {cs body rest : List Char} :
    readBody? p cs = some (body, rest) ↔
      cs = body ++ '/' :: rest ∧ Shielded p body ∧ (p.after body).shields = false := by
  induction cs generalizing p body with
  | nil => simp [readBody?]
  | cons c cs ih =>
    rw [readBody?]
    by_cases ends : c = '/' ∧ p.shields = false
    · rw [if_pos ends, Option.some_inj, Prod.mk.injEq]
      constructor
      · rintro ⟨rfl, rfl⟩
        exact ⟨by rw [ends.1, List.nil_append], shielded_nil p, ends.2⟩
      · rintro ⟨split, shielded, -⟩
        cases body with
        | nil => exact ⟨rfl, (List.cons.inj split).2⟩
        | cons b body =>
          obtain ⟨rfl, -⟩ := List.cons.inj split
          have shields := (shielded_cons.mp shielded).1 ends.1
          rw [ends.2] at shields
          cases shields
    · rw [if_neg ends, Option.map_eq_some_iff]
      constructor
      · rintro ⟨⟨body', rest'⟩, read, same⟩
        obtain ⟨rfl, rfl⟩ := Prod.mk.inj same
        obtain ⟨split, shielded, ended⟩ := ih.mp read
        have first : c = '/' → p.shields = true := fun slash => by
          simpa [slash] using ends
        exact ⟨by rw [split, List.cons_append], shielded_cons.mpr ⟨first, shielded⟩, ended⟩
      · rintro ⟨split, shielded, ended⟩
        cases body with
        | nil => exact absurd ⟨(List.cons.inj split).1, ended⟩ ends
        | cons b body =>
          obtain ⟨rfl, tails⟩ := List.cons.inj split
          exact ⟨(body, rest), ih.mpr ⟨tails, (shielded_cons.mp shielded).2, ended⟩, rfl⟩

/-- A text that is the body of a regular expression as it stands. -/
structure IsBody (pattern : String) : Prop where
  shielded : Shielded .start pattern.toList
  closed : (Place.start.after pattern.toList).shields = false

theorem toList_contentSelector (pattern : String) : (contentSelector pattern).toList =
    contentLead.toList ++ (pattern.toList ++ ['/', ']']) := by
  have whole : contentSelector pattern = contentLead ++ pattern ++ "/]" := rfl
  have closing : "/]".toList = ['/', ']'] := rfl
  rw [whole, String.toList_append, String.toList_append, closing, List.append_assoc]

theorem contentSelector_injective {pattern pattern' : String}
    (same : contentSelector pattern = contentSelector pattern') : pattern = pattern' := by
  have texts := congrArg String.toList same
  rw [toList_contentSelector, toList_contentSelector, List.append_cancel_left_eq,
    List.append_cancel_right_eq] at texts
  exact String.toList_inj.mp texts

/-- The reader accepts what is written for bodies, and nothing else. -/
theorem readContent?_eq_some_iff {selector body : String} :
    readContent? selector = some body ↔ selector = contentSelector body ∧ IsBody body := by
  simp only [readContent?, Option.bind_eq_some_iff, Text.afterLead?_eq_some_iff,
    Option.ite_none_right_eq_some, Option.some_inj]
  constructor
  · rintro ⟨cs, lead, ⟨chars, rest⟩, read, closes, rfl⟩
    obtain ⟨split, shielded, closed⟩ := readBody?_eq_some_iff.mp read
    have behind : rest = [']'] := closes
    have text : (String.ofList chars).toList = chars := String.toList_ofList
    refine ⟨?_, ⟨by rwa [text], by rwa [text]⟩⟩
    rw [← String.toList_inj, toList_contentSelector, text, lead, split, behind]
  · rintro ⟨rfl, shielded, closed⟩
    refine ⟨_, toList_contentSelector body, (body.toList, [']']), ?_, rfl, String.ofList_toList⟩
    exact readBody?_eq_some_iff.mpr ⟨rfl, shielded, closed⟩

theorem isBody_iff (pattern : String) :
    IsBody pattern ↔ readContent? (contentSelector pattern) = some pattern := by
  rw [readContent?_eq_some_iff]
  exact ⟨fun body => ⟨rfl, body⟩, And.right⟩

instance (pattern : String) : Decidable (IsBody pattern) :=
  decidable_of_iff _ (isBody_iff pattern).symm

/-! ### Configurations -/

/-- The selector that a configuration forbids. -/
def forbidden? (config : Json) : Option String :=
  ((config.get? "rules").bind (Json.get? "no-restricted-syntax")).bind fun entry =>
    (entry.array?.bind (·[1]?)).bind fun options => (options.get? "selector").bind Json.string?

theorem config_content {rule : Rule} {pattern : String}
    (reads : rule.spec = .ok (.pattern ⟨"content", pattern⟩)) :
    ∃ value, config rule = .ok value ∧ forbidden? value = some (contentSelector pattern) := by
  rw [config, rulesFor, reads]
  exact ⟨_, rfl, rfl⟩

/-- An escaped slash is a slash. -/
def unslashed : List Char → List Char
  | [] => []
  | '\\' :: '/' :: rest => '/' :: unslashed rest
  | c :: rest => c :: unslashed rest

/-- The selector holds one regular expression, which is the pattern but for escapes of slashes. -/
def Survives (selector pattern : String) : Prop :=
  ∃ body, readContent? selector = some body ∧ unslashed body.toList = unslashed pattern.toList

/-- A content pattern always has a selector. The pattern is read back from it exactly when each of its slashes
is escaped or in a class and it ends outside of both; what is read back, if anything, is the pattern as it
was given. -/
theorem content_pattern_read {rule : Rule} {pattern : String}
    (reads : rule.spec = .ok (.pattern ⟨"content", pattern⟩)) :
    ∃ value selector, config rule = .ok value ∧ forbidden? value = some selector ∧
      (Survives selector pattern ↔ IsBody pattern) ∧
      ∀ body, readContent? selector = some body → body = pattern := by
  obtain ⟨value, made, selected⟩ := config_content reads
  refine ⟨value, _, made, selected, ⟨?_, fun body => ?_⟩, fun body read => ?_⟩
  · rintro ⟨body, read, -⟩
    obtain ⟨same, isBody⟩ := readContent?_eq_some_iff.mp read
    rwa [contentSelector_injective same]
  · exact ⟨pattern, (isBody_iff pattern).mp body, rfl⟩
  · exact (contentSelector_injective (readContent?_eq_some_iff.mp read).1).symm

/-- A rule on the contents of literals. -/
def onContent (pattern : String) : Rule where
  id := "C"
  enabled := true
  category := "security"
  severity := .error
  desc := none
  selector := none
  check := ⟨[("engine", .string "pattern"), ("target", .string "content"),
    ("pattern", .string pattern)]⟩
  remedy := none
  customMessage := none

/-- An escaped slash, and slashes, a bracket and an escaped bracket in a class. -/
theorem shielded_pattern_read :
    let pattern := "https?:\\/\\/[^/[\\]]+"
    (onContent pattern).spec = .ok (.pattern ⟨"content", pattern⟩) ∧ IsBody pattern ∧
      ∃ value selector, config (onContent pattern) = .ok value ∧ forbidden? value = some selector ∧
        Survives selector pattern := by
  intro pattern
  have reads : (onContent pattern).spec = .ok (.pattern ⟨"content", pattern⟩) := by rfl
  have isBody : IsBody pattern := by decide +kernel
  obtain ⟨value, selector, made, selected, survives, -⟩ := content_pattern_read reads
  exact ⟨reads, isBody, value, selector, made, selected, survives.mpr isBody⟩

/-- The slash of a path ends the expression, and no selector is left. -/
theorem path_pattern_misread :
    (onContent "src/app").spec = .ok (.pattern ⟨"content", "src/app"⟩) ∧
    ∃ value, config (onContent "src/app") = .ok value ∧
      forbidden? value = some "Literal[value=/src/app/]" ∧
      readContent? "Literal[value=/src/app/]" = none ∧
      ¬ Survives "Literal[value=/src/app/]" "src/app" := by
  have reads : (onContent "src/app").spec = .ok (.pattern ⟨"content", "src/app"⟩) := by rfl
  obtain ⟨value, made, selected⟩ := config_content reads
  have unread : readContent? "Literal[value=/src/app/]" = none := by decide +kernel
  refine ⟨reads, value, made, selected, unread, ?_⟩
  rintro ⟨body, read, -⟩
  rw [unread] at read
  cases read

end PolicyLint.Tool.Eslint
