import Mathlib.Data.List.TakeWhile
import PolicyLint.Proofs.Text.Reading
import PolicyLint.Xml.Tag
/-!
XML as it is written against what is read of it. A text is written as pieces, each a mark with the
text before it; names and values say what they stand for, and spaces, quotes and the order of the
attributes are free. Main statement: the tags of a nested sequence of pieces are read back, whatever
follows it.
-/
namespace PolicyLint.Xml

/-! ### References -/

theorem unescapeChars?_escapeChar (c : Char) (rest : List Char) :
    unescapeChars? none (escapeChar c ++ rest) = (c :: ·) <$> unescapeChars? none rest := by
  have entity (name : List Char) (plain : ∀ c ∈ name, c ≠ ';' ∧ c ≠ '&') (before : List Char) :
      unescapeChars? (some before) (name ++ ';' :: rest) =
        (reference? (before.reverse ++ name)).bind fun c => (c :: ·) <$> unescapeChars? none rest := by
    induction name generalizing before with
    | nil => simp [unescapeChars?]
    | cons c name ih =>
      obtain ⟨⟨noEnd, noStart⟩, plain⟩ := List.forall_mem_cons.mp plain
      simp [unescapeChars?, noEnd, noStart, ih plain]
  unfold escapeChar
  split
  · exact entity "lt".toList (by simp) []
  · exact entity "gt".toList (by simp) []
  · exact entity "amp".toList (by simp) []
  · exact entity "apos".toList (by simp) []
  · exact entity "quot".toList (by simp) []
  · rename_i _ _ noReference _ _
    rw [List.singleton_append, unescapeChars?, if_neg noReference]

theorem unescapeChars?_escapeChars (cs : List Char) : unescapeChars? none (escapeChars cs) = some cs := by
  induction cs with
  | nil => rfl
  | cons c cs ih =>
    rw [escapeChars, List.flatMap_cons, unescapeChars?_escapeChar, ← escapeChars, ih]
    rfl

theorem not_mem_escapeChars {markup : Char} (is : markup ∈ ['<', '>', '"', '\x27']) (cs : List Char) :
    markup ∉ escapeChars cs := by
  intro member
  obtain ⟨c, -, member⟩ := List.mem_flatMap.mp member
  simp only [List.mem_cons, List.not_mem_nil, or_false] at is
  unfold escapeChar at member
  rcases is with rfl | rfl | rfl | rfl <;> split at member <;> simp_all [Eq.comm]

/-! ### Attributes -/

abbrev Spaces := { cs : List Char // ∀ c ∈ cs, isSpace c = true }

/-- Text without markup. -/
abbrev Plain := { cs : List Char // '<' ∉ cs }

/-- Text in which no mark begins or ends. -/
abbrev Unmarked := { cs : List Char // '<' ∉ cs ∧ '>' ∉ cs }

def noSpaces : Spaces :=
  ⟨[], by simp⟩

def noText : Plain :=
  ⟨[], by simp⟩

def inName (c : Char) : Bool :=
  !(isSpace c || ['=', '<', '>', '/', '!', '?', '"', '\x27'].contains c)

abbrev Name := { cs : List Char // cs ≠ [] ∧ ∀ c ∈ cs, inName c = true }

inductive Quote where
  | single | double

def Quote.char : Quote → Char
  | .single => '\x27'
  | .double => '"'

/-- An attribute as it is written, and the value that it stands for. -/
structure Spelled where
  gap : Spaces
  gap_some : gap.1 ≠ []
  name : Name
  beforeSign : Spaces
  behindSign : Spaces
  quote : Quote
  value : String

namespace Spelled

def quoted (a : Spelled) : List Char :=
  a.quote.char :: (escapeChars a.value.toList ++ [a.quote.char])

def text (a : Spelled) : List Char :=
  a.gap.1 ++ (a.name.1 ++ (a.beforeSign.1 ++ '=' :: (a.behindSign.1 ++ a.quoted)))

end Spelled

theorem Spaces.not_mem (gap : Spaces) {c : Char} (other : isSpace c = false) : c ∉ gap.1 := by
  intro member
  rw [gap.2 c member] at other
  cases other

theorem Name.not_mem (name : Name) {c : Char} (other : inName c = false) : c ∉ name.1 := by
  intro member
  rw [name.2.2 c member] at other
  cases other

theorem Name.exists_cons (name : Name) : ∃ first rest, name.1 = first :: rest ∧ inName first = true ∧
    ∀ c ∈ rest, inName c = true := by
  obtain ⟨first, rest, split⟩ := List.exists_cons_of_ne_nil name.2.1
  have all := name.2.2
  rw [split, List.forall_mem_cons] at all
  exact ⟨first, rest, split, all⟩

/-- A name begins with no character that would make other markup of a tag. -/
theorem Name.exists_tag (name : Name) : ∃ first rest, name.1 = first :: rest ∧ first ∉ ['!', '?', '/'] := by
  obtain ⟨first, rest, split, named, -⟩ := name.exists_cons
  refine ⟨first, rest, split, ?_⟩
  intro member
  simp only [List.mem_cons, List.not_mem_nil, or_false] at member
  rcases member with rfl | rfl | rfl <;> exact absurd named (by decide)

theorem not_isSpace_of_inName {c : Char} (name : inName c = true) : isSpace c = false := by
  simp only [inName, Bool.not_eq_true', Bool.or_eq_false_iff] at name
  exact name.1

theorem inKey_of_inName {c : Char} (name : inName c = true) : inKey c = true := by
  have sign : c ≠ '=' := by
    rintro rfl
    exact absurd name (by decide)
  simp [inKey, not_isSpace_of_inName name, sign]

theorem Quote.not_space (quote : Quote) : isSpace quote.char = false := by
  cases quote <;> rfl

theorem Quote.not_mem_escapeChars (quote : Quote) (cs : List Char) : quote.char ∉ escapeChars cs := by
  apply Xml.not_mem_escapeChars
  cases quote <;> simp [Quote.char]

theorem readValue_spelled (a : Spelled) (rest : List Char) :
    readValue (a.behindSign.1 ++ (a.quoted ++ rest)) = .quoted (escapeChars a.value.toList) rest := by
  have value : (escapeChars a.value.toList ++ a.quote.char :: rest).takeWhile (· != a.quote.char) =
        escapeChars a.value.toList ∧
      (escapeChars a.value.toList ++ a.quote.char :: rest).dropWhile (· != a.quote.char) =
        a.quote.char :: rest := by
    have inside := Text.bne_of_not_mem (a.quote.not_mem_escapeChars a.value.toList)
    exact ⟨Text.takeWhile_run inside (by simp), Text.dropWhile_run inside (by simp)⟩
  have quote : a.quote.char = '"' ∨ a.quote.char = '\x27' := by
    cases a.quote <;> simp [Quote.char]
  have opening : (a.behindSign.1 ++ (a.quoted ++ rest)).dropWhile isSpace =
      a.quote.char :: (escapeChars a.value.toList ++ a.quote.char :: rest) := by
    rw [Text.dropWhile_run a.behindSign.2 (by simp [Spelled.quoted, a.quote.not_space])]
    simp [Spelled.quoted]
  unfold readValue
  rw [opening]
  simp only [if_pos quote, value]

/-- One attribute is read off; its name counts when it is the first of that name. -/
theorem attributes_spelled (names : List (List Char)) (a : Spelled) (rest : List Char) :
    attributes names (a.text ++ rest) =
      if names.contains a.name.1 then attributes names rest
      else (a.name.1, escapeChars a.value.toList) :: attributes (a.name.1 :: names) rest := by
  obtain ⟨first, others, split, firstName, othersName⟩ := a.name.exists_cons
  have name : (a.text ++ rest).dropWhile isSpace =
      first :: (others ++ (a.beforeSign.1 ++ '=' :: (a.behindSign.1 ++ (a.quoted ++ rest)))) := by
    rw [Spelled.text, List.append_assoc, Text.dropWhile_run a.gap.2]
    · simp [split]
    · simp [split, not_isSpace_of_inName firstName]
  have stop : ∀ c ∈ (a.beforeSign.1 ++ '=' :: (a.behindSign.1 ++ (a.quoted ++ rest))).head?,
      inKey c = false := by
    cases before : a.beforeSign.1 with
    | nil => simp [inKey]
    | cons c cs =>
      have space : isSpace c = true := a.beforeSign.2 c (by rw [before]; exact List.mem_cons_self)
      simp [inKey, space]
  have key := Text.takeWhile_run (fun c member => inKey_of_inName (othersName c member)) stop
  have behind := Text.dropWhile_run (fun c member => inKey_of_inName (othersName c member)) stop
  have sign : (a.beforeSign.1 ++ '=' :: (a.behindSign.1 ++ (a.quoted ++ rest))).dropWhile isSpace =
      '=' :: (a.behindSign.1 ++ (a.quoted ++ rest)) :=
    Text.dropWhile_run a.beforeSign.2 (by simp [isSpace])
  -- each match of the definition keeps what it matched on, for termination, so none can be rewritten
  rw [attributes]
  split
  · rename_i spent
    rw [name] at spent
    cases spent
  · rename_i _ _ read
    rw [name] at read
    obtain ⟨rfl, rfl⟩ := List.cons.inj read
    rw [key, ← split]
    split
    · rename_i equal
      rw [behind, sign] at equal
      obtain rfl := (List.cons.inj equal).2
      have value := readValue_spelled a rest
      split
      · rename_i valued
        rw [value] at valued
        obtain ⟨rfl, rfl⟩ := Value.quoted.inj valued
        rfl
      · rename_i unquoted
        rw [value] at unquoted
        cases unquoted
      · rename_i missing
        rw [value] at missing
        cases missing
    · rename_i unequal
      rw [behind, sign] at unequal
      exact absurd rfl (unequal _)

/-- What stands in a tag behind its name. -/
structure Inside where
  attributes : List Spelled
  gap : Spaces

namespace Inside

def text (i : Inside) : List Char :=
  i.attributes.flatMap Spelled.text ++ i.gap.1

/-- The value of the first attribute of a name. -/
def value? (i : Inside) (name : String) : Option String :=
  (i.attributes.map fun a => (a.name.1, a.value)).lookup name.toList

end Inside

theorem attributes_spaces (names : List (List Char)) (gap : Spaces) : attributes names gap.1 = [] := by
  have empty : gap.1.dropWhile isSpace = [] := List.dropWhile_eq_nil_iff.mpr gap.2
  rw [attributes]
  split
  · rfl
  · rename_i left
    rw [empty] at left
    cases left

theorem lookup_attributes {name : List Char} {names : List (List Char)} (fresh : name ∉ names)
    (spelled : List Spelled) (gap : Spaces) :
    (attributes names (spelled.flatMap Spelled.text ++ gap.1)).lookup name =
      ((spelled.map fun a => (a.name.1, a.value)).lookup name).map fun v => escapeChars v.toList := by
  induction spelled generalizing names with
  | nil => simp [attributes_spaces]
  | cons a spelled ih =>
    rw [List.flatMap_cons, List.append_assoc, attributes_spelled, List.map_cons]
    by_cases same : name = a.name.1
    · subst same
      simp [fresh]
    · have other : (name == a.name.1) = false := beq_eq_false_iff_ne.mpr same
      rw [List.lookup_cons, other]
      split
      · exact ih fresh
      · rw [List.lookup_cons, other]
        apply ih
        simp [same, fresh]

/-- The values are read back, of each name the first. -/
theorem attribute?_inside (name : String) (i : Inside) : attribute? name i.text = i.value? name := by
  rw [attribute?, Inside.text, lookup_attributes List.not_mem_nil, Inside.value?]
  cases (i.attributes.map fun a => (a.name.1, a.value)).lookup name.toList with
  | none => rfl
  | some value => simp [unescapeChars?_escapeChars]

end PolicyLint.Xml
