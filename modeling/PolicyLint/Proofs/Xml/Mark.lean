import PolicyLint.Proofs.Xml.Written
/-!
Marks: what is written between `<` and `>`. Main statements: every mark is read for what it is, whatever
follows it, and a mark that is cut off is no markup.
-/
namespace PolicyLint.Xml

/-! ### Up to the end of a tag -/

/-- Text in which no tag ends and behind which no quote is open. -/
def Passes (cs : List Char) : Prop :=
  ∀ rest, tagContent none (cs ++ rest) = (tagContent none rest).map fun r => (cs ++ r.1, r.2)

theorem Passes.append {front back : List Char} (first : Passes front) (second : Passes back) :
    Passes (front ++ back) := by
  intro rest
  rw [List.append_assoc, first, second, Option.map_map]
  simp [Function.comp_def]

theorem Passes.nil : Passes [] := by
  intro rest
  simp

theorem Passes.flatMap {α : Type} {f : α → List Char} (each : ∀ a, Passes (f a)) (as : List α) :
    Passes (as.flatMap f) := by
  induction as with
  | nil => exact Passes.nil
  | cons a as ih =>
    rw [List.flatMap_cons]
    exact (each a).append ih

theorem passes_of_not_mem {cs : List Char} (ends : '>' ∉ cs) (double : '"' ∉ cs) (single : '\x27' ∉ cs) :
    Passes cs := by
  intro rest
  induction cs with
  | nil => simp
  | cons c cs ih =>
    simp only [List.mem_cons, not_or, eq_comm] at ends double single
    simp [tagContent, ends, double, single, ih, Function.comp_def]

theorem tagContent_quoted {quote : Char} {cs : List Char} (inside : quote ∉ cs) (rest : List Char) :
    tagContent (some quote) (cs ++ quote :: rest) =
      (tagContent none rest).map fun r => (cs ++ quote :: r.1, r.2) := by
  induction cs with
  | nil => simp [tagContent]
  | cons c cs ih =>
    obtain ⟨other, inside⟩ := not_or.mp (mt List.mem_cons.mpr inside)
    simp [tagContent, other, ih inside, Function.comp_def]

theorem passes_quoted (a : Spelled) : Passes a.quoted := by
  intro rest
  have value := tagContent_quoted (a.quote.not_mem_escapeChars a.value.toList) rest
  have quote : a.quote.char ≠ '>' ∧ (a.quote.char = '"' ∨ a.quote.char = '\x27') := by
    cases a.quote <;> simp [Quote.char]
  simp [Spelled.quoted, tagContent, quote, value, Function.comp_def]

theorem passes_spaces (gap : Spaces) : Passes gap.1 :=
  passes_of_not_mem (gap.not_mem rfl) (gap.not_mem rfl) (gap.not_mem rfl)

theorem passes_name (name : Name) : Passes name.1 :=
  passes_of_not_mem (name.not_mem rfl) (name.not_mem rfl) (name.not_mem rfl)

theorem passes_spelled (a : Spelled) : Passes a.text := by
  have sign : Passes ['='] := passes_of_not_mem (by decide) (by decide) (by decide)
  have whole := (passes_spaces a.gap).append ((passes_name a.name).append
    ((passes_spaces a.beforeSign).append (sign.append
      ((passes_spaces a.behindSign).append (passes_quoted a)))))
  simpa [Spelled.text] using whole

theorem passes_tag (name : Name) (inside : Inside) : Passes (name.1 ++ inside.text) :=
  (passes_name name).append ((Passes.flatMap passes_spelled _).append (passes_spaces _))

/-! ### Marks -/

inductive Mark where
  | instruction (content : Unmarked)
  | opening (name : Name) (inside : Inside)
  | empty (name : Name) (inside : Inside)
  | closing (name : Name) (gap : Spaces)

namespace Mark

/-- What stands behind the `<`. -/
def body : Mark → List Char
  | instruction content => '?' :: (content.1 ++ ['?', '>'])
  | opening name inside => name.1 ++ inside.text ++ ['>']
  | empty name inside => name.1 ++ inside.text ++ ['/', '>']
  | closing name gap => '/' :: (name.1 ++ gap.1 ++ ['>'])

def markup : Mark → Markup
  | instruction _ => .other
  | opening name inside => .opening (name.1 ++ inside.text)
  | empty name inside => .empty (name.1 ++ inside.text)
  | closing name _ => .closing name.1

end Mark

theorem Passes.tagContent {cs : List Char} (passes : Passes cs) (rest : List Char) :
    tagContent none (cs ++ '>' :: rest) = some (cs, rest) := by
  rw [passes]
  simp [Xml.tagContent]

/-- A tag ends with its name, a quote or a space. -/
theorem getLast?_tag (name : Name) (inside : Inside) :
    (name.1 ++ inside.text).getLast? ≠ some '/' := by
  intro last
  rcases List.eq_nil_or_concat' inside.gap.1 with empty | ⟨gap, c, ends⟩
  · rcases List.eq_nil_or_concat' inside.attributes with bare | ⟨before, a, ends⟩
    · have member := List.mem_of_getLast? last
      simp only [Inside.text, empty, bare, List.flatMap_nil, List.append_nil] at member
      exact name.not_mem rfl member
    · have text : name.1 ++ inside.text = name.1 ++ (before.flatMap Spelled.text ++ (a.gap.1 ++
          (a.name.1 ++ (a.beforeSign.1 ++ '=' :: (a.behindSign.1 ++ a.quote.char ::
            escapeChars a.value.toList))))) ++ [a.quote.char] := by
        simp [Inside.text, empty, ends, Spelled.text, Spelled.quoted]
      rw [text, List.getLast?_concat] at last
      cases given : a.quote <;> simp [given, Quote.char] at last
  · have text : name.1 ++ inside.text = name.1 ++ (inside.attributes.flatMap Spelled.text ++ gap) ++ [c] := by
      simp [Inside.text, ends]
    have noSlash := inside.gap.not_mem (c := '/') rfl
    rw [text, List.getLast?_concat] at last
    rw [ends, Option.some.inj last] at noSlash
    simp at noSlash

theorem untilClosed_instruction {content : List Char} (inside : '>' ∉ content) (before rest : List Char) :
    untilClosed (fun b => b.head? = some '?') before (content ++ '?' :: '>' :: rest) =
      some (before.reverse ++ content ++ ['?'], rest) := by
  induction content generalizing before with
  | nil => simp [untilClosed]
  | cons c content ih =>
    obtain ⟨other, inside⟩ := not_or.mp (mt List.mem_cons.mpr inside)
    simp [untilClosed, Ne.symm other, ih inside]

/-- What begins with none of three characters is the tag of an element. -/
theorem markup_tag {c : Char} {cs : List Char} (tag : c ∉ ['!', '?', '/']) :
    Xml.markup (c :: cs) =
      match tagContent none (c :: cs) with
      | some (content, rest) =>
        .ok (if content.getLast? = some '/' then .empty content.dropLast else .opening content, rest)
      | none => .error .unclosedTag := by
  unfold Xml.markup
  split
  · rename_i empty
    cases empty
  · rename_i bang
    rw [(List.cons.inj bang).1] at tag
    exact absurd tag (by decide)
  · rename_i question
    rw [(List.cons.inj question).1] at tag
    exact absurd tag (by decide)
  · rename_i slash
    rw [(List.cons.inj slash).1] at tag
    exact absurd tag (by decide)
  · cases tagContent none (c :: cs) with
    | none => rfl
    | some r =>
      dsimp only
      split <;> rfl

theorem markup_name {name : Name} {cs content rest : List Char}
    (ended : tagContent none (name.1 ++ cs) = some (content, rest)) :
    Xml.markup (name.1 ++ cs) =
      .ok (if content.getLast? = some '/' then .empty content.dropLast else .opening content, rest) := by
  obtain ⟨first, others, split, tag⟩ := name.exists_tag
  rw [split, List.cons_append] at ended ⊢
  rw [markup_tag tag, ended]

theorem trimSpace_name (name : Name) (gap : Spaces) : trimSpace (name.1 ++ gap.1) = name.1 := by
  obtain empty | ⟨front, last, split⟩ := List.eq_nil_or_concat' name.1
  · exact absurd empty name.2.1
  have visible : isSpace last = false := not_isSpace_of_inName (name.2.2 last (by rw [split]; simp))
  have spaces : ∀ c ∈ gap.1.reverse, isSpace c = true := by
    intro c member
    exact gap.2 c (List.mem_reverse.mp member)
  rw [trimSpace, List.reverse_append, Text.dropWhile_run spaces, List.reverse_reverse]
  simp [split, visible]

/-- Every mark is read for what it is. -/
theorem markup_body (m : Mark) (rest : List Char) : Xml.markup (m.body ++ rest) = .ok (m.markup, rest) := by
  cases m with
  | instruction content =>
    have ended := untilClosed_instruction content.2.2 ['?'] rest
    simp [Mark.body, Xml.markup, ended, Mark.markup]
  | opening name inside =>
    have ended := (passes_tag name inside).tagContent rest
    rw [List.append_assoc] at ended
    rw [Mark.body, List.append_assoc, List.append_assoc, List.singleton_append, markup_name ended,
      if_neg (getLast?_tag name inside), Mark.markup]
  | empty name inside =>
    have slash : Passes ['/'] := passes_of_not_mem (by decide) (by decide) (by decide)
    have ended := ((passes_tag name inside).append slash).tagContent rest
    rw [List.append_assoc, List.append_assoc] at ended
    rw [Mark.body, List.append_assoc, List.append_assoc]
    refine (markup_name ended).trans ?_
    simp [Mark.markup]
  | closing name gap =>
    have ended := ((passes_name name).append (passes_spaces gap)).tagContent rest
    have named : (name.1 ++ gap.1).all isSpace = false := by
      obtain ⟨first, others, split, firstName, -⟩ := name.exists_cons
      simp [split, not_isSpace_of_inName firstName]
    rw [Mark.body, List.cons_append, List.append_assoc, List.singleton_append, Xml.markup, ended]
    simp [named, trimSpace_name, Mark.markup]

/-! ### Where marks begin and end -/

theorem not_mem_spelled (a : Spelled) : '<' ∉ a.text := by
  have value : '<' ∉ escapeChars a.value.toList := not_mem_escapeChars (by decide) a.value.toList
  have quote : '<' ≠ a.quote.char := by
    cases a.quote <;> decide
  have name : '<' ∉ a.name.1 := a.name.not_mem rfl
  have gap (gap : Spaces) : '<' ∉ gap.1 := gap.not_mem rfl
  simp [Spelled.text, Spelled.quoted, gap, name, value, quote]

theorem not_mem_inside (inside : Inside) : '<' ∉ inside.text := by
  have gap : '<' ∉ inside.gap.1 := inside.gap.not_mem rfl
  simp [Inside.text, gap, not_mem_spelled]

theorem Mark.not_mem_body (m : Mark) : '<' ∉ m.body := by
  have named (name : Name) : '<' ∉ name.1 := name.not_mem rfl
  cases m with
  | instruction content => simp [body, content.2.1]
  | opening | empty => simp [body, named, not_mem_inside]
  | closing name gap =>
    have spaces : '<' ∉ gap.1 := gap.not_mem rfl
    simp [body, named, spaces]

theorem Mark.getLast?_body (m : Mark) : m.body.getLast? = some '>' := by
  cases m with
  | instruction | closing => simp [body, List.getLast?_cons]
  | opening | empty => simp [body]

/-- Only instructions begin with a question mark. -/
theorem Mark.exists_body {m : Mark} (element : ∀ content, m ≠ .instruction content) :
    ∃ c rest, m.body = c :: rest ∧ c ≠ '?' := by
  cases m with
  | instruction content => exact absurd rfl (element content)
  | opening name inside | empty name inside =>
    obtain ⟨first, others, split, tag⟩ := name.exists_tag
    have noQuestion : first ≠ '?' := List.ne_of_not_mem_cons (mt (List.mem_cons_of_mem _) tag)
    simp [body, split, noQuestion]
  | closing => exact ⟨'/', _, rfl, by decide⟩

/-! ### Marks that are cut off -/

theorem tagContent_append {quote : Option Char} {cs content rest : List Char} (more : List Char)
    (read : tagContent quote cs = some (content, rest)) :
    tagContent quote (cs ++ more) = some (content, rest ++ more) := by
  induction cs generalizing quote content with
  | nil => simp [tagContent] at read
  | cons c cs ih =>
    rw [List.cons_append, tagContent]
    rw [tagContent] at read
    split at read
    · rename_i ends
      cases read
      rw [if_pos ends]
    · rename_i goesOn
      obtain ⟨⟨content, after⟩, further, same⟩ := Option.map_eq_some_iff.mp read
      obtain ⟨rfl, rfl⟩ := Prod.mk.inj same
      rw [if_neg goesOn]
      exact Option.map_eq_some_iff.mpr ⟨_, ih further, rfl⟩

theorem untilClosed_append {closes : List Char → Bool} {before cs content rest : List Char}
    (more : List Char) (read : untilClosed closes before cs = some (content, rest)) :
    untilClosed closes before (cs ++ more) = some (content, rest ++ more) := by
  induction cs generalizing before with
  | nil => simp [untilClosed] at read
  | cons c cs ih =>
    rw [List.cons_append, untilClosed]
    rw [untilClosed] at read
    split at read
    · rename_i ends
      cases read
      rw [if_pos ends]
    · rename_i goesOn
      rw [if_neg goesOn, ih read]

/-- Markup that is read to its end is read the same way whatever follows. -/
theorem markup_append {cs after : List Char} {m : Markup} (noBang : cs.head? ≠ some '!') (more : List Char)
    (read : markup cs = .ok (m, after)) : markup (cs ++ more) = .ok (m, after ++ more) := by
  cases cs with
  | nil => cases read
  | cons c cs =>
  by_cases question : c = '?'
  · subst question
    rw [markup] at read
    split at read
    · rename_i ends
      rw [List.cons_append, markup, untilClosed_append more ends]
      dsimp only
      split at read
      · cases read
      · rename_i long
        cases read
        rw [if_neg long]
    · cases read
  by_cases slash : c = '/'
  · subst slash
    rw [markup] at read
    split at read
    · rename_i ends
      cases read
      rw [List.cons_append, markup, tagContent_append more ends]
    · cases read
  have tag : c ∉ ['!', '?', '/'] := by
    simpa [question, slash] using noBang
  rw [markup_tag tag] at read
  split at read
  · rename_i ends
    cases read
    rw [List.cons_append, markup_tag tag, ← List.cons_append, tagContent_append more ends]
  · cases read

theorem Mark.head?_body (m : Mark) : m.body.head? ≠ some '!' := by
  intro bang
  cases m with
  | instruction | closing => cases bang
  | opening name inside | empty name inside =>
    obtain ⟨first, others, split, tag⟩ := name.exists_tag
    obtain rfl : first = '!' := by simpa [Mark.body, split] using bang
    exact tag List.mem_cons_self

/-- A mark that is cut off is no markup. -/
theorem markup_cut {m : Mark} {front back : List Char} (cut : m.body = front ++ back) (short : back ≠ []) :
    ∃ fault, markup front = .error fault := by
  cases read : markup front with
  | error fault => exact ⟨fault, rfl⟩
  | ok r =>
    have noBang : front.head? ≠ some '!' := by
      intro bang
      apply m.head?_body
      rw [cut, List.head?_append, bang, Option.some_or]
    have longer := markup_append noBang back read
    have whole := markup_body m []
    rw [List.append_nil, cut, longer] at whole
    have empty : r.2 ++ back = [] := (Prod.mk.inj (Except.ok.inj whole)).2
    exact absurd (List.append_eq_nil_iff.mp empty).2 short

end PolicyLint.Xml
