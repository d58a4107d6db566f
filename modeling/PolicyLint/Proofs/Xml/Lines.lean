import PolicyLint.Proofs.Xml.Tree
/-!
Elements as documents are written with them: attributes behind one blank each and in double quotes, and
tags on lines of their own. Main statement: such lines read as the element, whatever is read in it.
-/
namespace PolicyLint.Xml

/-! ### Marks in full -/

theorem toList_escape (s : String) : (escape s).toList = escapeChars s.toList :=
  String.toList_ofList

/-- What is written for attributes behind one blank each and in double quotes. -/
def attributesText (attributes : List (Name × String)) : List Char :=
  attributes.flatMap fun a => ' ' :: (a.1.1 ++ '=' :: '"' :: (escapeChars a.2.toList ++ ['"']))

theorem attributesText_nil (rest : List Char) : attributesText [] ++ rest = rest :=
  rfl

theorem attributesText_cons (name : Name) (value : String) (attributes : List (Name × String))
    (rest : List Char) :
    attributesText ((name, value) :: attributes) ++ rest =
      ' ' :: (name.1 ++ '=' :: '"' :: (escapeChars value.toList ++ '"' ::
        (attributesText attributes ++ rest))) := by
  simp [attributesText]

theorem Inside.text_plain (attributes : List (Name × String)) :
    (Inside.plain attributes).text = attributesText attributes := by
  simp [Inside.plain, Inside.text, attributesText, Spelled.plain, Spelled.text, Spelled.quoted, Quote.char,
    blanks, noSpaces, List.flatMap_map]

theorem Mark.text_opening (name : Name) (attributes : List (Name × String)) :
    (Mark.opening name (.plain attributes)).text = '<' :: (name.1 ++ (attributesText attributes ++ ['>'])) := by
  simp [Mark.text, Mark.body, Inside.text_plain]

theorem Mark.text_empty (name : Name) (attributes : List (Name × String)) :
    (Mark.empty name (.plain attributes)).text =
      '<' :: (name.1 ++ (attributesText attributes ++ ['/', '>'])) := by
  simp [Mark.text, Mark.body, Inside.text_plain]

/-! ### Lines -/

def lineEnd : Spaces := ⟨['\n'], by simp [isSpace]⟩

/-- An element whose tags stand on lines of their own. -/
def elementLines (indent : List Char) (name : Name) (inside : Inside) (inner : List Char) : List Char :=
  indent ++ ((Mark.opening name inside).text ++ (lineEnd.1 ++ (inner ++
    (indent ++ ((Mark.closing name noSpaces).text ++ lineEnd.1)))))

/-- Only an element without anything in it keeps the spaces between its tags. -/
theorem Reads.lines (indent : Spaces) {inner : List Char} {content : List Element}
    (reads : Reads inner content) (name : Name) (inside : Inside) :
    ∃ text : Spaces, (content ≠ [] → text = noSpaces) ∧ Reads (elementLines indent.1 name inside inner)
      [.of name inside (String.ofList text.1) content] := by
  obtain ⟨text, empty, element⟩ := (reads.between lineEnd indent).element name inside noSpaces
  refine ⟨text, empty, ?_⟩
  have lines := element.between indent lineEnd
  simp only [List.append_assoc] at lines
  exact lines

theorem Reads.lines_some (indent : Spaces) {inner : List Char} {content : List Element}
    (reads : Reads inner content) (nonempty : content ≠ []) (name : Name) (inside : Inside) :
    Reads (elementLines indent.1 name inside inner) [.of name inside "" content] := by
  obtain ⟨text, empty, lines⟩ := reads.lines indent name inside
  obtain rfl := empty nonempty
  exact lines

/-! ### Named values -/

def nameKey : Name := ⟨['n', 'a', 'm', 'e'], by simp [inName, isSpace]⟩

def valueKey : Name := ⟨"value".toList, by simp [inName, isSpace]⟩

def propertyName : Name := ⟨"property".toList, by simp [inName, isSpace]⟩

/-- An element with a name and a value, and nothing in it. -/
def Element.property (p : String × String) : Element :=
  .mk "property" [("name", p.1), ("value", p.2)] "" []

def Element.property? : Element → Option (String × String)
  | .mk "property" [("name", name), ("value", value)] "" [] => some (name, value)
  | _ => none

theorem Element.property?_property (p : String × String) : (Element.property p).property? = some p := by
  simp [Element.property, Element.property?]

theorem Element.mapM_property (properties : List (String × String)) :
    (properties.map Element.property).mapM Element.property? = some properties := by
  induction properties with
  | nil => rfl
  | cons p properties ih => simp [Element.property?_property, ih]

def propertyMark (p : String × String) : Mark :=
  .empty propertyName (.plain [(nameKey, p.1), (valueKey, p.2)])

theorem text_propertyMark (p : String × String) :
    (propertyMark p).text = "<property name=\"".toList ++ (escapeChars p.1.toList ++
      ("\" value=\"".toList ++ (escapeChars p.2.toList ++ "\"/>".toList))) := by
  have opening : "<property name=\"".toList =
      '<' :: (propertyName.1 ++ ' ' :: (nameKey.1 ++ ['=', '"'])) := rfl
  have between : "\" value=\"".toList = '"' :: ' ' :: (valueKey.1 ++ ['=', '"']) := rfl
  have ending : "\"/>".toList = ['"', '/', '>'] := rfl
  rw [propertyMark, Mark.text_empty, opening, between, ending]
  simp only [attributesText_cons, attributesText_nil, List.append_assoc, List.cons_append, List.nil_append]

theorem Reads.property (p : String × String) : Reads (propertyMark p).text [.property p] :=
  Reads.empty _ _

end PolicyLint.Xml
