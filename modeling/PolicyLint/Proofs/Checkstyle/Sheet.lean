import PolicyLint.Proofs.Xml.Nesting
import PolicyLint.Tool.Checkstyle
/-!
Checkstyle's report as text, whatever the elements in it: how it is found in the output, and how it is
read. Main statement: a report is read in full, whatever is printed before and behind it.
-/
namespace PolicyLint.Tool.Checkstyle

open Xml

def rootName : Name := ⟨"checkstyle".toList, by simp [inName, isSpace]⟩

/-! ### Reports, whatever their elements -/

/-- A `checkstyle` element with nested elements in it, and the declaration before it, if there is one,
with the text between them. -/
structure Sheet where
  declaration : Option (Unmarked × Plain)
  root : Inside
  body : List Piece
  ending : Plain × Spaces
  nested : Nested body
  elements : ElementsOnly body

namespace Sheet

def rootElement (s : Sheet) (before : Plain) : List Piece :=
  element before rootName s.root s.body s.ending

def pieces (s : Sheet) : List Piece :=
  match s.declaration with
  | none => s.rootElement noText
  | some (content, between) =>
    ⟨noText, .instruction ⟨"xml".toList ++ content.1, by simp [content.2]⟩⟩ ::
      s.rootElement between

def text (s : Sheet) : List Char :=
  written s.pieces

/-- What the report is found by. -/
def lead (s : Sheet) : List Char :=
  match s.declaration with
  | none => "<checkstyle".toList
  | some _ => "<?xml".toList

theorem lead_eq (s : Sheet) : s.lead = "<checkstyle".toList ∨ s.lead = "<?xml".toList := by
  unfold lead
  cases s.declaration with
  | none => exact .inl rfl
  | some _ => exact .inr rfl

theorem nested_pieces (s : Sheet) : Nested s.pieces := by
  have root (before : Plain) : Nested (s.rootElement before) := s.nested.element before _ _ _
  unfold pieces
  cases s.declaration with
  | none => exact root _
  | some declaration => exact root declaration.2

theorem exists_pieces (s : Sheet) : ∃ first others, s.pieces = first :: others ∧ s.lead <+: first.text := by
  unfold pieces lead
  cases s.declaration with
  | none =>
    refine ⟨_, _, rfl, s.root.text ++ ['>'], ?_⟩
    exact (List.append_assoc _ _ _).symm
  | some declaration => exact ⟨_, _, rfl, declaration.1.1 ++ ['?', '>'], (List.append_assoc _ _ _).symm⟩

theorem lead_prefix (s : Sheet) : s.lead <+: s.text := by
  obtain ⟨first, others, split, leads⟩ := s.exists_pieces
  rw [text, split, written, List.flatMap_cons]
  exact leads.trans (List.prefix_append _ _)

end Sheet

/-- Where no instruction is written, none is found. -/
theorem no_instruction {pieces : List Piece} (elements : ElementsOnly pieces) (behind : Plain) :
    ¬ "<?xml".toList <:+: written pieces ++ behind.1 := by
  rw [← Text.fromFirst?_eq_none_iff]
  have search : "<?xml".toList = '<' :: '?' :: "xml".toList := rfl
  rw [search]
  induction pieces with
  | nil =>
    have passed := Text.fromFirst?_append behind.2 ('?' :: "xml".toList) []
    rw [List.append_nil] at passed
    exact passed
  | cons p pieces ih =>
    obtain ⟨element, elements⟩ := List.forall_mem_cons.mp elements
    obtain ⟨c, body, split, other⟩ := Mark.exists_body element
    have apart : Text.afterLead? ('<' :: '?' :: "xml".toList)
        ('<' :: (p.mark.body ++ (written pieces ++ behind.1))) = none := by
      simp [Text.afterLead?, split, Ne.symm other]
    rw [written, List.flatMap_cons, ← written, Piece.text, List.append_assoc, List.append_assoc,
      Text.fromFirst?_append p.before.2, List.cons_append, Text.fromFirst?, apart,
      Text.fromFirst?_append p.mark.not_mem_body, ih elements]
    rfl

/-! ### Finding the report -/

theorem report?_found (s : Sheet) (before behind : Plain) {cs : List Char} (leads : s.lead <+: cs)
    (within : cs <+: s.text ++ behind.1) :
    report? (String.ofList (before.1 ++ cs)) = some (String.ofList cs) := by
  have xml : Text.fromFirst? "<?xml".toList (before.1 ++ cs) = Text.fromFirst? "<?xml".toList cs :=
    Text.fromFirst?_append before.2 _ cs
  have root : Text.fromFirst? "<checkstyle".toList (before.1 ++ cs) =
      Text.fromFirst? "<checkstyle".toList cs := Text.fromFirst?_append before.2 _ cs
  simp only [report?, Text.from?, String.toList_ofList, xml, root]
  cases declaration : s.declaration with
  | some _ =>
    simp only [Sheet.lead, declaration] at leads
    rw [Text.fromFirst?_of_prefix leads]
    rfl
  | none =>
    simp only [Sheet.lead, declaration] at leads
    have plain : ¬ "<?xml".toList <:+: s.text ++ behind.1 := by
      simp only [Sheet.text, Sheet.pieces, declaration]
      exact no_instruction (s.elements.element _ _ _ _) behind
    have undeclared : ¬ "<?xml".toList <:+: cs := fun found => plain (found.trans within.isInfix)
    rw [Text.fromFirst?_eq_none_iff.mpr undeclared, Text.fromFirst?_of_prefix leads]
    rfl

/-- A report that is cut off before it can be told to be one. -/
theorem report?_short (s : Sheet) {cs : List Char} (within : cs <+: s.text) (short : ¬ s.lead <+: cs) :
    report? (String.ofList cs) = none := by
  have begun : cs <+: s.lead := by
    rcases List.prefix_or_prefix_of_prefix within s.lead_prefix with begun | whole
    · exact begun
    · exact absurd whole short
  have other {needle : List Char} (found : needle <:+: cs) : needle <:+: s.lead ∧ needle ≠ s.lead := by
    refine ⟨found.trans begun.isInfix, ?_⟩
    rintro rfl
    have same := begun.eq_of_length_le found.length_le
    exact short (by rw [same])
  have xml : ¬ "<?xml".toList <:+: cs := by
    intro found
    have apart := other found
    rcases s.lead_eq with lead | lead <;> rw [lead] at apart <;> revert apart <;> decide
  have root : ¬ "<checkstyle".toList <:+: cs := by
    intro found
    have apart := other found
    rcases s.lead_eq with lead | lead <;> rw [lead] at apart <;> revert apart <;> decide
  simp only [report?, Text.from?, String.toList_ofList, Text.fromFirst?_eq_none_iff.mpr xml,
    Text.fromFirst?_eq_none_iff.mpr root]
  rfl

/-! ### Reading the report -/

def findingsOf (pieces : List Piece) : List Finding :=
  findingsIn "" (tagsOf pieces)

theorem Sheet.head?_text (s : Sheet) : s.text.head? = some '<' := by
  obtain ⟨rest, split⟩ := s.lead_prefix
  rcases s.lead_eq with lead | lead <;> rw [← split, lead] <;> rfl

theorem Sheet.getLast?_text (s : Sheet) : s.text.getLast? = some '>' := by
  obtain ⟨first, others, split, -⟩ := s.exists_pieces
  exact getLast?_written (by rw [split]; exact List.cons_ne_nil _ _)

theorem Sheet.text_ne_nil (s : Sheet) : s.text ≠ [] := by
  intro empty
  have first := s.head?_text
  rw [empty] at first
  cases first

/-- What a report says, once it is found. -/
def said (report : List Char) : Except Failure (List Finding) :=
  ((tags [] report).map (findingsIn "")).mapError fun fault => .parse name fault.message

/-- Output that is not blank says what its report says. -/
theorem parse_trimmed {stdout : String} {cs : List Char} (trimmed : (Text.trim stdout).toList = cs)
    (nonempty : cs ≠ []) (stderr : String) (exitCode : Int) :
    parse ⟨stdout, stderr, exitCode⟩ =
      (report? (String.ofList cs)).elim
        (.error (.parse name ("no checkstyle report in output: " ++ Text.trim stderr)))
        fun report => said report.toList := by
  subst trimmed
  have visible : Text.trim stdout ≠ "" := fun blank => nonempty (by rw [blank]; rfl)
  simp only [parse, if_neg visible, String.ofList_toList]
  cases report? (Text.trim stdout) with
  | none => rfl
  | some report =>
    simp only [said, Option.elim_some]
    cases tags [] report.toList <;> rfl

/-- A report is read in full, whatever stands around it. -/
theorem parse_sheet (s : Sheet) (progress behind : Plain) (stderr : String) (exitCode : Int) :
    parse ⟨String.ofList (progress.1 ++ (s.text ++ behind.1)), stderr, exitCode⟩ =
      .ok (findingsOf s.pieces) := by
  obtain ⟨before, dropped⟩ : ∃ before : Plain, before.1 = Text.dropBlanks progress.1 :=
    ⟨⟨_, fun member => progress.2 ((List.dropWhile_sublist _).subset member)⟩, rfl⟩
  obtain ⟨after, kept⟩ : ∃ after : Plain, after.1 = (Text.dropBlanks behind.1.reverse).reverse :=
    ⟨⟨_, fun member => behind.2 ((Text.dropBlanks_reverse_prefix _).subset member)⟩, rfl⟩
  have trimmed := Text.toList_trim_append progress.1 behind.1 ⟨'<', s.head?_text, by decide⟩
    ⟨'>', s.getLast?_text, by decide⟩
  rw [← dropped, ← kept] at trimmed
  have nonempty : before.1 ++ (s.text ++ after.1) ≠ [] := by
    simp [s.text_ne_nil]
  have leads : s.lead <+: s.text ++ after.1 := s.lead_prefix.trans (List.prefix_append _ _)
  have found := report?_found s before after leads List.prefix_rfl
  have read : tags [] (s.text ++ after.1) = .ok (tagsOf s.pieces) := by
    rw [Sheet.text, tags_written s.nested_pieces, tags_plain [] after.2]
    simp
  rw [parse_trimmed trimmed nonempty, found, Option.elim_some, String.toList_ofList, said, read, findingsOf]
  rfl

end PolicyLint.Tool.Checkstyle
