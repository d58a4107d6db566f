import PolicyLint.Proofs.Xml.Nesting
/-!
Elements read back as trees. The reader is strict: every character of a tag must belong to its name, to an
attribute or to the space between them, references must resolve, closing tags must close what is open,
and an element holds text or elements, not both. Main statements: what is written for an element is read
as that element, wherever it stands, and texts are read one after the other as their elements.
-/
namespace PolicyLint.Xml

/-- An element, with the attributes in order. Spaces around the elements in it are no text of its own. -/
inductive Element where
  | mk (name : String) (attributes : List (String × String)) (text : String) (content : List Element)

/-! ### The reader -/

/-- All of what stands behind a tag's name, as attributes. -/
def readAttributes? (cs : List Char) : Option (List (String × String)) :=
  match _hs : cs.dropWhile isSpace with
  | [] => some []
  | first :: rest =>
    let name := (first :: rest).takeWhile inName
    match _he : ((first :: rest).dropWhile inName).dropWhile isSpace with
    | '=' :: after =>
      match _hv : readValue after with
      | .quoted text left =>
        if name = [] ∨ cs.takeWhile isSpace = [] then none
        else
          (unescapeChars? none text).bind fun value =>
            ((String.ofList name, String.ofList value) :: ·) <$> readAttributes? left
      | _ => none
    | _ => none
termination_by cs.length
decreasing_by
  have h1 := Text.length_dropWhile_le isSpace cs
  have h2 := Text.length_dropWhile_le inName (first :: rest)
  have h3 := Text.length_dropWhile_le isSpace ((first :: rest).dropWhile inName)
  rw [_hs] at h1
  rw [_he] at h3
  have h4 := readValue_quoted _hv
  simp only [List.length_cons] at h1 h2 h3
  omega

def readTag? (content : List Char) : Option (String × List (String × String)) :=
  let tag := Tag.of content
  if tag.name ≠ [] ∧ tag.name.all inName then
    (readAttributes? tag.rest).map fun attributes => (String.ofList tag.name, attributes)
  else none

/-- An element that is open, with what was read of it so far. -/
structure Frame where
  name : String
  attributes : List (String × String)
  text : List Char
  content : List Element

namespace Frame

def opened (tag : String × List (String × String)) : Frame :=
  ⟨tag.1, tag.2, [], []⟩

def say (text : List Char) (f : Frame) : Frame :=
  { f with text := f.text ++ text }

def put (elements : List Element) (f : Frame) : Frame :=
  { f with content := f.content ++ elements }

/-- The element, when it is closed. -/
def element? (f : Frame) : Option Element :=
  if f.content = [] then some (.mk f.name f.attributes (String.ofList f.text) [])
  else if f.text.all isSpace then some (.mk f.name f.attributes "" f.content)
  else none

end Frame

/-- A mark is read inside the innermost of the open elements. -/
def Markup.enter? (inner : Frame) (outer : List Frame) : Markup → Option (List Frame)
  | .opening content => (readTag? content).map fun tag => .opened tag :: inner :: outer
  | .empty content =>
    (readTag? content).bind fun tag =>
      (Frame.opened tag).element?.map fun e => inner.put [e] :: outer
  | .closing name =>
    match outer with
    | [] => none
    | next :: outer =>
      if String.ofList name = inner.name then inner.element?.map fun e => next.put [e] :: outer
      else none
  | .other => none

/-- Reads on inside open elements, the innermost first; gives those that are open at the end. -/
def readOn? (frames : List Frame) (cs : List Char) : Option (List Frame) :=
  match frames with
  | [] => none
  | inner :: outer =>
    (unescapeChars? none (cs.takeWhile (· != '<'))).bind fun text =>
      match _hs : cs.dropWhile (· != '<') with
      | [] => some (inner.say text :: outer)
      | _ :: rest =>
        match _hm : markup rest with
        | .ok (mark, after) => (mark.enter? (inner.say text) outer).bind fun frames => readOn? frames after
        | .error _ => none
termination_by cs.length
decreasing_by
  have h1 := Text.length_dropWhile_le (· != '<') cs
  rw [_hs] at h1
  have h2 := markup_shorter _hm
  simp only [List.length_cons] at h1 h2
  omega

/-- What all is read in. -/
def documentFrame : Frame :=
  ⟨"", [], [], []⟩

/-- The only element of a document, from behind where the given ones were opened. -/
def readDocument? (opened : List String) (cs : List Char) : Option Element :=
  (readOn? (opened.map (fun name => Frame.opened (name, [])) ++ [documentFrame]) cs).bind fun frames =>
    match frames with
    | [⟨_, _, text, [root]⟩] => if text.all isSpace then some root else none
    | _ => none

/-! ### Tags -/

theorem stop_inName {gap : Spaces} {c : Char} {rest : List Char} (other : inName c = false) :
    ∀ d ∈ (gap.1 ++ c :: rest).head?, inName d = false := by
  cases spaces : gap.1 with
  | nil => simp [other]
  | cons d gap' =>
    have space : isSpace d = true := gap.2 d (by rw [spaces]; exact List.mem_cons_self)
    simp [inName, space]

/-- An attribute as it is read. -/
def Spelled.pair (a : Spelled) : String × String :=
  (String.ofList a.name.1, a.value)

theorem readAttributes?_spelled (a : Spelled) (rest : List Char) :
    readAttributes? (a.text ++ rest) = (a.pair :: ·) <$> readAttributes? rest := by
  obtain ⟨first, others, split, firstName, -⟩ := a.name.exists_cons
  have stop : ∀ c ∈ (a.name.1 ++ (a.beforeSign.1 ++ '=' :: (a.behindSign.1 ++ (a.quoted ++ rest)))).head?,
      isSpace c = false := by
    simp [split, not_isSpace_of_inName firstName]
  have text : a.text ++ rest = a.gap.1 ++ (a.name.1 ++
      (a.beforeSign.1 ++ '=' :: (a.behindSign.1 ++ (a.quoted ++ rest)))) := by
    simp [Spelled.text]
  have gap := Text.takeWhile_run a.gap.2 stop
  have passed := Text.dropWhile_run a.gap.2 stop
  have sign : ∀ c ∈ (a.beforeSign.1 ++ '=' :: (a.behindSign.1 ++ (a.quoted ++ rest))).head?,
      inName c = false := stop_inName (by decide)
  have name := Text.takeWhile_run a.name.2.2 sign
  have behind := Text.dropWhile_run a.name.2.2 sign
  have equal : (a.beforeSign.1 ++ '=' :: (a.behindSign.1 ++ (a.quoted ++ rest))).dropWhile isSpace =
      '=' :: (a.behindSign.1 ++ (a.quoted ++ rest)) :=
    Text.dropWhile_run a.beforeSign.2 (by simp [isSpace])
  have value := readValue_spelled a rest
  rw [text, readAttributes?]
  split
  · rename_i spent
    rw [passed, split] at spent
    cases spent
  · rename_i _ _ read
    rw [passed] at read
    rw [← read, name, gap]
    split
    · rename_i equal'
      rw [behind, equal] at equal'
      obtain rfl := (List.cons.inj equal').2
      split
      · rename_i valued
        rw [value] at valued
        obtain ⟨rfl, rfl⟩ := Value.quoted.inj valued
        rw [if_neg (by simp [a.name.2.1, a.gap_some]), unescapeChars?_escapeChars]
        simp [Spelled.pair]
      · rename_i other
        exact absurd value (other _ _)
    · rename_i unequal
      rw [behind, equal] at unequal
      exact absurd rfl (unequal _)

theorem readAttributes?_inside (inside : Inside) :
    readAttributes? inside.text = some (inside.attributes.map Spelled.pair) := by
  obtain ⟨attributes, gap⟩ := inside
  rw [Inside.text]
  induction attributes with
  | nil =>
    have empty : gap.1.dropWhile isSpace = [] := List.dropWhile_eq_nil_iff.mpr gap.2
    rw [List.flatMap_nil, List.nil_append, readAttributes?]
    split
    · rfl
    · rename_i left
      rw [empty] at left
      cases left
  | cons a attributes ih =>
    rw [List.flatMap_cons, List.append_assoc, readAttributes?_spelled, ih]
    rfl

/-- What a tag is read as. -/
def Inside.tag (inside : Inside) (name : Name) : String × List (String × String) :=
  (String.ofList name.1, inside.attributes.map Spelled.pair)

theorem readTag?_inside (name : Name) (inside : Inside) :
    readTag? (name.1 ++ inside.text) = some (inside.tag name) := by
  have named : name.1 ≠ [] ∧ name.1.all inName = true :=
    ⟨name.2.1, List.all_eq_true.mpr name.2.2⟩
  simp only [readTag?, Tag.of_inside]
  rw [if_pos named, readAttributes?_inside]
  rfl

/-! ### Reading on -/

theorem unescapeChars?_of_free {cs : List Char} (free : '&' ∉ cs) : unescapeChars? none cs = some cs := by
  induction cs with
  | nil => rfl
  | cons c cs ih =>
    obtain ⟨other, free⟩ := not_or.mp (mt List.mem_cons.mpr free)
    simp [unescapeChars?, Ne.symm other, ih free]

theorem unescapeChars?_spaces (gap : Spaces) : unescapeChars? none gap.1 = some gap.1 :=
  unescapeChars?_of_free (gap.not_mem rfl)

/-- A mark, with the text before it, is read inside the innermost element. -/
theorem readOn?_mark (before : Plain) {text : List Char} (read : unescapeChars? none before.1 = some text)
    (mark : Mark) (inner : Frame) (outer : List Frame) (rest : List Char) :
    readOn? (inner :: outer) (before.1 ++ '<' :: (mark.body ++ rest)) =
      (mark.markup.enter? (inner.say text) outer).bind fun frames => readOn? frames rest := by
  have front : (before.1 ++ '<' :: (mark.body ++ rest)).takeWhile (· != '<') = before.1 :=
    Text.takeWhile_run (Text.bne_of_not_mem before.2) (by simp)
  have passed := dropWhile_plain before (mark.body ++ rest)
  have whole := markup_body mark rest
  rw [readOn?, front, read, Option.bind_some]
  split
  · rename_i spent
    rw [passed] at spent
    cases spent
  · rename_i left
    rw [passed] at left
    obtain rfl := (List.cons.inj left).2
    split
    · rename_i marked
      rw [whole] at marked
      obtain ⟨rfl, rfl⟩ := Prod.mk.inj (Except.ok.inj marked)
      rfl
    · rename_i fault
      rw [whole] at fault
      cases fault

theorem readOn?_end (behind : Plain) {text : List Char} (read : unescapeChars? none behind.1 = some text)
    (inner : Frame) (outer : List Frame) :
    readOn? (inner :: outer) behind.1 = some (inner.say text :: outer) := by
  have front : behind.1.takeWhile (· != '<') = behind.1 :=
    List.takeWhile_eq_self_iff.mpr (Text.bne_of_not_mem behind.2)
  have passed : behind.1.dropWhile (· != '<') = [] :=
    List.dropWhile_eq_nil_iff.mpr (Text.bne_of_not_mem behind.2)
  rw [readOn?, front, read, Option.bind_some]
  split
  · rfl
  · rename_i left
    rw [passed] at left
    cases left

/-! ### What is read as elements -/

def Mark.text (m : Mark) : List Char :=
  '<' :: m.body

/-- So many blanks. -/
def blanks (n : Nat) : Spaces :=
  ⟨List.replicate n ' ', fun c member => by
    obtain ⟨-, rfl⟩ := List.mem_replicate.mp member
    rfl⟩

/-- An attribute behind one blank and in double quotes. -/
def Spelled.plain (a : Name × String) : Spelled where
  gap := blanks 1
  gap_some := List.cons_ne_nil _ _
  name := a.1
  beforeSign := noSpaces
  behindSign := noSpaces
  quote := .double
  value := a.2

def Inside.plain (attributes : List (Name × String)) : Inside :=
  ⟨attributes.map Spelled.plain, noSpaces⟩

def Element.of (name : Name) (inside : Inside) (text : String) (content : List Element) : Element :=
  .mk (String.ofList name.1) (inside.attributes.map Spelled.pair) text content

/-- The text is read as these elements, wherever it stands. Spaces that are left over in front of it are
read with it, and some may be left over behind it. -/
def Reads (cs : List Char) (content : List Element) : Prop :=
  ∀ lead : Spaces, ∃ said left : Spaces, ∀ inner outer rest,
    readOn? (inner :: outer) (lead.1 ++ (cs ++ rest)) =
      readOn? ((inner.say said.1).put content :: outer) (left.1 ++ rest)

def Spaces.append (front back : Spaces) : Spaces :=
  ⟨front.1 ++ back.1, fun c member => (List.mem_append.mp member).elim (front.2 c) (back.2 c)⟩

def Spaces.plain (gap : Spaces) : Plain :=
  ⟨gap.1, gap.not_mem rfl⟩

theorem Spaces.all (gap : Spaces) : gap.1.all isSpace = true :=
  List.all_eq_true.mpr gap.2

namespace Reads

theorem spaces (gap : Spaces) : Reads gap.1 [] := by
  intro lead
  refine ⟨noSpaces, lead.append gap, fun inner outer rest => ?_⟩
  simp [Frame.say, Frame.put, noSpaces, Spaces.append]

theorem nil : Reads [] [] :=
  spaces noSpaces

theorem append {front back : List Char} {content content' : List Element} (first : Reads front content)
    (second : Reads back content') : Reads (front ++ back) (content ++ content') := by
  intro lead
  obtain ⟨said, between, first⟩ := first lead
  obtain ⟨said', left, second⟩ := second between
  refine ⟨said.append said', left, fun inner outer rest => ?_⟩
  rw [List.append_assoc, first, second]
  simp [Frame.say, Frame.put, Spaces.append]

/-- Spaces around it change nothing. -/
theorem between {cs : List Char} {content : List Element} (reads : Reads cs content) (front back : Spaces) :
    Reads (front.1 ++ (cs ++ back.1)) content := by
  have whole := (spaces front).append (reads.append (spaces back))
  rwa [List.append_nil, List.nil_append] at whole

theorem flatMap {α : Type} {f : α → List Char} {e : α → Element} (each : ∀ a, Reads (f a) [e a])
    (as : List α) : Reads (as.flatMap f) (as.map e) := by
  induction as with
  | nil => exact nil
  | cons a as ih => exact (each a).append ih

theorem empty (name : Name) (inside : Inside) :
    Reads (Mark.empty name inside).text [.of name inside "" []] := by
  intro lead
  refine ⟨lead, noSpaces, fun inner outer rest => ?_⟩
  have mark := readOn?_mark lead.plain (unescapeChars?_spaces lead) (.empty name inside) inner
    outer rest
  refine mark.trans ?_
  simp [Mark.markup, Markup.enter?, readTag?_inside, Inside.tag, Frame.opened, Frame.element?, Element.of,
    noSpaces]

/-- An element that holds text. -/
theorem leaf (name : Name) (inside : Inside) (text : String) (gap : Spaces) :
    Reads ((Mark.opening name inside).text ++ (escapeChars text.toList ++ (Mark.closing name gap).text))
      [.of name inside text []] := by
  intro lead
  refine ⟨lead, noSpaces, fun inner outer rest => ?_⟩
  have opening := readOn?_mark lead.plain (unescapeChars?_spaces lead) (.opening name inside)
    inner outer (escapeChars text.toList ++ ((Mark.closing name gap).text ++ rest))
  have closing := readOn?_mark ⟨escapeChars text.toList, not_mem_escapeChars (by decide) _⟩
    (unescapeChars?_escapeChars text.toList) (.closing name gap) (.opened (inside.tag name))
    (inner.say lead.1 :: outer) rest
  have entered : (Mark.opening name inside).markup.enter? (inner.say lead.1) outer =
      some (.opened (inside.tag name) :: inner.say lead.1 :: outer) := by
    simp [Mark.markup, Markup.enter?, readTag?_inside]
  rw [List.append_assoc, List.append_assoc]
  refine opening.trans ?_
  rw [entered]
  refine closing.trans ?_
  simp [Mark.markup, Markup.enter?, Inside.tag, Frame.opened, Frame.say, Frame.element?, Element.of,
    noSpaces]

/-- What is left over when an element is closed is the text of one without elements. -/
theorem closing {f : Frame} (spaces : f.text.all isSpace = true) (name : Name)
    (named : f.name = String.ofList name.1) (left gap : Spaces) :
    ∃ text : Spaces, (f.content ≠ [] → text = noSpaces) ∧ ∀ next outer rest,
      readOn? (f :: next :: outer) (left.1 ++ ((Mark.closing name gap).text ++ rest)) =
        readOn? (next.put [.mk f.name f.attributes (String.ofList text.1) f.content] :: outer) rest := by
  have inside : ∀ c ∈ f.text, isSpace c = true := List.all_eq_true.mp spaces
  have all : (f.text ++ left.1).all isSpace = true := by
    rw [List.all_append, spaces, left.all]
    rfl
  have mark (next : Frame) (outer : List Frame) (rest : List Char) :=
    readOn?_mark left.plain (unescapeChars?_spaces left) (.closing name gap) f
      (next :: outer) rest
  by_cases empty : f.content = []
  · refine ⟨Spaces.append ⟨f.text, inside⟩ left, fun nonempty => absurd empty nonempty, fun next outer rest => ?_⟩
    refine (mark next outer rest).trans ?_
    simp [Mark.markup, Markup.enter?, named, Frame.say, Frame.element?, empty, Spaces.append]
  · refine ⟨noSpaces, fun _ => rfl, fun next outer rest => ?_⟩
    refine (mark next outer rest).trans ?_
    simp only [Mark.markup, Markup.enter?, named, if_true, Frame.say, Frame.element?, empty, if_false, all,
      Option.map_some, Option.bind_some, noSpaces, String.ofList_nil]

/-- An element that holds elements; spaces are its text when there are none. -/
theorem element {cs : List Char} {content : List Element} (reads : Reads cs content) (name : Name)
    (inside : Inside) (gap : Spaces) :
    ∃ text : Spaces, (content ≠ [] → text = noSpaces) ∧
      Reads ((Mark.opening name inside).text ++ (cs ++ (Mark.closing name gap).text))
        [.of name inside (String.ofList text.1) content] := by
  obtain ⟨said, left, reads⟩ := reads noSpaces
  obtain ⟨text, empty, closed⟩ := closing
    (f := ((Frame.opened (inside.tag name)).say said.1).put content) said.all name rfl left gap
  refine ⟨text, empty, fun lead => ⟨lead, noSpaces, fun inner outer rest => ?_⟩⟩
  have opening := readOn?_mark lead.plain (unescapeChars?_spaces lead) (.opening name inside)
    inner outer (cs ++ ((Mark.closing name gap).text ++ rest))
  have entered : (Mark.opening name inside).markup.enter? (inner.say lead.1) outer =
      some (.opened (inside.tag name) :: inner.say lead.1 :: outer) := by
    simp [Mark.markup, Markup.enter?, readTag?_inside]
  have within := reads (.opened (inside.tag name)) (inner.say lead.1 :: outer)
    ((Mark.closing name gap).text ++ rest)
  rw [List.append_assoc, List.append_assoc]
  refine opening.trans ?_
  rw [entered]
  exact within.trans (closed _ _ _)

theorem node {cs : List Char} {content : List Element} (reads : Reads cs content) (nonempty : content ≠ [])
    (name : Name) (inside : Inside) (gap : Spaces) :
    Reads ((Mark.opening name inside).text ++ (cs ++ (Mark.closing name gap).text))
      [.of name inside "" content] := by
  obtain ⟨text, empty, read⟩ := reads.element name inside gap
  obtain rfl := empty nonempty
  exact read

/-! ### Documents -/

theorem readDocument?_of_end {f : Frame} {root : Element} (read : f.content = [root])
    (spaces : f.text.all isSpace = true) {opened : List String} {cs : List Char} {left : Spaces}
    (reads : readOn? (opened.map (fun name => Frame.opened (name, [])) ++ [documentFrame]) cs =
      readOn? [f] left.1) :
    readDocument? opened cs = some root := by
  have ended := readOn?_end left.plain (unescapeChars?_spaces left) f []
  have all : (f.text ++ left.1).all isSpace = true := by
    rw [List.all_append, spaces, left.all]
    rfl
  rw [readDocument?, reads]
  refine (congrArg (Option.bind · _) ended).trans ?_
  simp only [Frame.say, read, Option.bind_some, all, if_true]

/-- A text that reads as one element is a document. -/
theorem document {cs : List Char} {root : Element} (reads : Reads cs [root]) :
    readDocument? [] cs = some root := by
  obtain ⟨said, left, reads⟩ := reads noSpaces
  have read := reads documentFrame [] []
  simp only [noSpaces, List.nil_append, List.append_nil] at read
  exact readDocument?_of_end (f := (documentFrame.say said.1).put [root]) rfl said.all read

/-- So is the rest of an element, from behind where it was opened. -/
theorem rest {cs : List Char} {content : List Element} (reads : Reads cs content) (name : Name)
    (gap behind : Spaces) :
    ∃ text : Spaces, readDocument? [String.ofList name.1] (cs ++ ((Mark.closing name gap).text ++ behind.1)) =
      some (.mk (String.ofList name.1) [] (String.ofList text.1) content) := by
  obtain ⟨said, left, reads⟩ := reads noSpaces
  have read := reads (.opened (String.ofList name.1, [])) [documentFrame]
    ((Mark.closing name gap).text ++ behind.1)
  simp only [noSpaces, List.nil_append] at read
  obtain ⟨text, -, closed⟩ := closing
    (f := ((Frame.opened (String.ofList name.1, [])).say said.1).put content) said.all name rfl
    left gap
  refine ⟨text, readDocument?_of_end
    (f := documentFrame.put [.mk (String.ofList name.1) [] (String.ofList text.1) content]) rfl rfl
    (read.trans (closed _ _ _))⟩

end Reads

end PolicyLint.Xml
