import PolicyLint.Proofs.Xml.Mark
/-!
Marks and the text between them. A sequence of pieces is nested when every closing tag names the
element opened last; the elements that are still open are what is carried from piece to piece. Main
statements: the tags of a nested sequence are read in order, and one that is cut off is read up to the
cut when the cut is in no mark, and refused when it is in one.
-/
namespace PolicyLint.Xml

/-! ### Pieces -/

/-- A mark and the text before it. -/
structure Piece where
  before : Plain
  mark : Mark

def Piece.text (p : Piece) : List Char :=
  p.before.1 ++ '<' :: p.mark.body

def written (pieces : List Piece) : List Char :=
  pieces.flatMap Piece.text

theorem getLast?_written {pieces : List Piece} (nonempty : pieces ≠ []) :
    (written pieces).getLast? = .some '>' := by
  obtain empty | ⟨before, last, rfl⟩ := List.eq_nil_or_concat' pieces
  · exact absurd empty nonempty
  · have ends := last.mark.getLast?_body
    simp [written, Piece.text, List.getLast?_append, List.getLast?_cons, ends]

/-- The elements that are open behind a mark. -/
def Mark.open? (opened : List (List Char)) : Mark → Option (List (List Char))
  | .instruction _ | .empty _ _ => some opened
  | .opening name _ => some (name.1 :: opened)
  | .closing name _ =>
    match opened with
    | [] => none
    | expected :: opened => if name.1 = expected then some opened else none

def open? (opened : List (List Char)) (pieces : List Piece) : Option (List (List Char)) :=
  pieces.foldlM (fun opened p => p.mark.open? opened) opened

def Mark.tag? : Mark → Option Tag
  | .opening name inside | .empty name inside => some ⟨name.1, inside.text⟩
  | _ => none

def tagsOf (pieces : List Piece) : List Tag :=
  pieces.filterMap fun p => p.mark.tag?

theorem tagsOf_append (front back : List Piece) : tagsOf (front ++ back) = tagsOf front ++ tagsOf back :=
  List.filterMap_append

theorem Tag.of_inside (name : Name) (inside : Inside) :
    Tag.of (name.1 ++ inside.text) = ⟨name.1, inside.text⟩ := by
  have kind : ∀ c ∈ name.1, (!isSpace c) = true := by
    intro c member
    simp [not_isSpace_of_inName (name.2.2 c member)]
  have stop : ∀ c ∈ inside.text.head?, (!isSpace c) = false := by
    intro c head
    have member : isSpace c = true := by
      cases attributes : inside.attributes with
      | nil =>
        simp only [Inside.text, attributes, List.flatMap_nil, List.nil_append] at head
        exact inside.gap.2 c (List.mem_of_head? head)
      | cons a _ =>
        obtain ⟨first, gap, split⟩ := List.exists_cons_of_ne_nil a.gap_some
        obtain rfl : first = c := by
          simpa [Inside.text, attributes, Spelled.text, split] using head
        exact a.gap.2 first (by rw [split]; exact List.mem_cons_self)
    simp [member]
  rw [Tag.of, Text.takeWhile_run kind stop, Text.dropWhile_run kind stop]

theorem tags_plain (opened : List (List Char)) {cs : List Char} (plain : '<' ∉ cs) :
    tags opened cs = .ok [] := by
  have passed : cs.dropWhile (· != '<') = [] :=
    List.dropWhile_eq_nil_iff.mpr (Text.bne_of_not_mem plain)
  rw [tags]
  split
  · rfl
  · rename_i left
    rw [passed] at left
    cases left

theorem dropWhile_plain (before : Plain) (cs : List Char) :
    (before.1 ++ '<' :: cs).dropWhile (· != '<') = '<' :: cs :=
  Text.dropWhile_run (Text.bne_of_not_mem before.2) (by simp)

/-- The tags from a mark on; a closing tag must close the element opened last. -/
theorem tags_mark (opened : List (List Char)) (before : Plain) (cs : List Char) :
    tags opened (before.1 ++ '<' :: cs) =
      (markup cs).bind fun r =>
        match r.1 with
        | .opening content => (Tag.of content :: ·) <$> tags ((Tag.of content).name :: opened) r.2
        | .empty content => (Tag.of content :: ·) <$> tags opened r.2
        | .closing name =>
          match opened with
          | [] => .error (.notOpened (String.ofList name))
          | expected :: opened =>
            if name = expected then tags opened r.2
            else .error (.mismatched (String.ofList expected) (String.ofList name))
        | .other => tags opened r.2 := by
  have passed := dropWhile_plain before cs
  rw [tags]
  split
  · rename_i spent
    rw [passed] at spent
    cases spent
  · rename_i left
    rw [passed] at left
    obtain rfl := (List.cons.inj left).2
    split <;> rename_i read <;> rw [read] <;> rfl

theorem Mark.open?_closing {name : Name} {gap : Spaces} {opened opened' : List (List Char)} :
    (Mark.closing name gap).open? opened = some opened' ↔ opened = name.1 :: opened' := by
  cases opened with
  | nil => simp [open?]
  | cons expected opened =>
    simp only [open?, List.cons.injEq]
    split
    · rename_i same
      simp [same]
    · rename_i other
      simp [Ne.symm other]

theorem tags_piece {p : Piece} {opened opened' : List (List Char)}
    (nested : p.mark.open? opened = some opened') (rest : List Char) :
    tags opened (p.text ++ rest) = (p.mark.tag?.toList ++ ·) <$> tags opened' rest := by
  obtain ⟨before, mark⟩ := p
  rw [Piece.text, List.append_assoc, List.cons_append, tags_mark, markup_body, Except.bind]
  cases mark with
  | instruction =>
    obtain rfl := Option.some.inj nested
    simp [Mark.markup, Mark.tag?]
  | opening name inside =>
    obtain rfl := Option.some.inj nested
    simp [Mark.markup, Mark.tag?, Tag.of_inside]
  | empty name inside =>
    obtain rfl := Option.some.inj nested
    simp [Mark.markup, Mark.tag?, Tag.of_inside]
  | closing name gap =>
    obtain rfl := Mark.open?_closing.mp nested
    simp [Mark.markup, Mark.tag?]

theorem tagsOf_cons (p : Piece) (pieces : List Piece) :
    tagsOf (p :: pieces) = p.mark.tag?.toList ++ tagsOf pieces := by
  cases tag : p.mark.tag? <;> simp [tagsOf, tag]

/-- What is read of nested pieces does not depend on what follows them. -/
theorem tags_written {pieces : List Piece} {opened opened' : List (List Char)}
    (nested : open? opened pieces = some opened') (rest : List Char) :
    tags opened (written pieces ++ rest) = (tagsOf pieces ++ ·) <$> tags opened' rest := by
  induction pieces generalizing opened with
  | nil =>
    obtain rfl := Option.some.inj nested
    simp [written, tagsOf]
  | cons p pieces ih =>
    obtain ⟨between, first, others⟩ := Option.bind_eq_some_iff.mp nested
    rw [written, List.flatMap_cons, List.append_assoc, tags_piece first, ← written, ih others, tagsOf_cons]
    simp

/-! ### Cuts -/

theorem tags_in_mark (opened : List (List Char)) (before : Plain) {m : Mark} {front back : List Char}
    (cut : m.body = front ++ back) (short : back ≠ []) :
    ∃ fault, tags opened (before.1 ++ '<' :: front) = .error fault := by
  obtain ⟨fault, refused⟩ := markup_cut cut short
  exact ⟨fault, by rw [tags_mark, refused]; rfl⟩

/-- A part of a piece that reaches into its mark. -/
theorem Piece.exists_body {p : Piece} {part more : List Char} (text : p.text = part ++ more)
    (reaches : '<' ∈ part) : ∃ front, part = p.before.1 ++ '<' :: front ∧ p.mark.body = front ++ more := by
  rcases List.append_eq_append_iff.mp text with ⟨farther, rfl, rest⟩ | ⟨farther, before, -⟩
  · cases farther with
    | nil =>
      rw [List.append_nil] at reaches
      exact absurd reaches p.before.2
    | cons c farther =>
      obtain ⟨rfl, body⟩ := List.cons.inj rest
      exact ⟨farther, rfl, body⟩
  · have plain := p.before.2
    rw [before] at plain
    exact absurd (List.mem_append_left _ reaches) plain

/-- Where pieces are cut, there is a piece that is not whole. -/
theorem written_cut {pieces : List Piece} {front back : List Char} (cut : written pieces = front ++ back)
    (short : back ≠ []) : ∃ done next rest part more, pieces = done ++ next :: rest ∧
      front = written done ++ part ∧ next.text = part ++ more ∧ more ≠ [] := by
  induction pieces generalizing front with
  | nil => exact absurd (List.append_eq_nil_iff.mp cut.symm).2 short
  | cons p pieces ih =>
    -- the first piece is whole: the cut is in the others
    have further {farther : List Char} (beyond : front = p.text ++ farther)
        (others : written pieces = farther ++ back) :
        ∃ done next rest part more, p :: pieces = done ++ next :: rest ∧
          front = written done ++ part ∧ next.text = part ++ more ∧ more ≠ [] := by
      obtain ⟨done, next, rest, part, more, rfl, rfl, text, nonempty⟩ := ih others
      refine ⟨p :: done, next, rest, part, more, rfl, ?_, text, nonempty⟩
      rw [beyond, written, written, List.flatMap_cons, List.append_assoc]
    rw [written, List.flatMap_cons, ← written] at cut
    rcases List.append_eq_append_iff.mp cut with ⟨farther, beyond, others⟩ | ⟨missing, text, others⟩
    · exact further beyond others
    · by_cases empty : missing = []
      · subst empty
        exact further (by rw [text, List.append_nil, List.append_nil]) (by simpa using others.symm)
      · exact ⟨[], p, pieces, front, missing, rfl, rfl, text, empty⟩

/-! ### Elements -/

/-- Pieces that close what they open, and nothing else. -/
def Nested (pieces : List Piece) : Prop :=
  open? [] pieces = some []

theorem Mark.open?_append {m : Mark} {opened opened' : List (List Char)} (outer : List (List Char))
    (nested : m.open? opened = some opened') : m.open? (opened ++ outer) = some (opened' ++ outer) := by
  cases m with
  | instruction | empty =>
    obtain rfl := Option.some.inj nested
    rfl
  | opening =>
    obtain rfl := Option.some.inj nested
    rfl
  | closing name gap =>
    obtain rfl := open?_closing.mp nested
    exact open?_closing.mpr rfl

/-- Elements that are open around the pieces stay open. -/
theorem open?_append_right {pieces : List Piece} {opened opened' : List (List Char)}
    (outer : List (List Char)) (nested : open? opened pieces = some opened') :
    open? (opened ++ outer) pieces = some (opened' ++ outer) := by
  induction pieces generalizing opened with
  | nil =>
    obtain rfl := Option.some.inj nested
    rfl
  | cons p pieces ih =>
    obtain ⟨between, first, others⟩ := Option.bind_eq_some_iff.mp nested
    exact Option.bind_eq_some_iff.mpr ⟨_, p.mark.open?_append outer first, ih others⟩

theorem open?_append (opened : List (List Char)) (front back : List Piece) :
    open? opened (front ++ back) = (open? opened front).bind fun between => open? between back :=
  List.foldlM_append

namespace Nested

theorem nil : Nested [] := rfl

theorem open? {pieces : List Piece} (nested : Nested pieces) (opened : List (List Char)) :
    open? opened pieces = some opened :=
  open?_append_right opened nested

theorem append {front back : List Piece} (first : Nested front) (second : Nested back) :
    Nested (front ++ back) := by
  rw [Nested, open?_append, first.open?, Option.bind_some, second.open?]

theorem exists_open? {front back : List Piece} (nested : Nested (front ++ back)) :
    ∃ opened, Xml.open? [] front = some opened := by
  rw [Nested, open?_append] at nested
  obtain ⟨opened, front, -⟩ := Option.bind_eq_some_iff.mp nested
  exact ⟨opened, front⟩

theorem flatMap {α : Type} {f : α → List Piece} (each : ∀ a, Nested (f a)) (as : List α) :
    Nested (as.flatMap f) := by
  induction as with
  | nil => exact nil
  | cons a as ih =>
    rw [List.flatMap_cons]
    exact (each a).append ih

end Nested

/-- Pieces without instructions. -/
def ElementsOnly (pieces : List Piece) : Prop :=
  ∀ p ∈ pieces, ∀ content, p.mark ≠ .instruction content

theorem ElementsOnly.flatMap {α : Type} {f : α → List Piece} (each : ∀ a, ElementsOnly (f a)) (as : List α) :
    ElementsOnly (as.flatMap f) := by
  intro p member
  obtain ⟨a, -, member⟩ := List.mem_flatMap.mp member
  exact each a p member

/-- An element with content, and what stands in its closing tag and before it. -/
def element (before : Plain) (name : Name) (inside : Inside) (content : List Piece)
    (ending : Plain × Spaces) : List Piece :=
  ⟨before, .opening name inside⟩ :: (content ++ [⟨ending.1, .closing name ending.2⟩])

theorem ElementsOnly.element {content : List Piece} (only : ElementsOnly content) (before : Plain)
    (name : Name) (inside : Inside) (ending : Plain × Spaces) :
    ElementsOnly (element before name inside content ending) := by
  intro p member
  rcases List.mem_cons.mp member with rfl | member
  · nofun
  rcases List.mem_append.mp member with within | last
  · exact only p within
  · obtain rfl := List.mem_singleton.mp last
    nofun

theorem tagsOf_element (before : Plain) (name : Name) (inside : Inside) (content : List Piece)
    (ending : Plain × Spaces) :
    tagsOf (element before name inside content ending) = ⟨name.1, inside.text⟩ :: tagsOf content := by
  rw [element, tagsOf_cons, tagsOf_append]
  simp [tagsOf, Mark.tag?]

theorem Nested.element {content : List Piece} (nested : Nested content) (before : Plain) (name : Name)
    (inside : Inside) (ending : Plain × Spaces) :
    Nested (element before name inside content ending) := by
  have inner : Xml.open? [name.1] (content ++ [⟨ending.1, .closing name ending.2⟩]) = some [] := by
    rw [open?_append, nested.open?]
    simp [Xml.open?, Mark.open?]
  exact inner

end PolicyLint.Xml
