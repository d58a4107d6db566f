import PolicyLint.Proofs.Xml.Lines
import PolicyLint.Tool.Pmd
/-!
PMD's ruleset read back as rules. Main statement: whatever the references, names, messages and expressions
are, a ruleset reads as the rules it was written for, each with the priority; so different rules have
different rulesets.
-/
namespace PolicyLint.Tool.Pmd

open Xml

/-! ### The reader -/

/-- The priority that stands in a rule, in digits. -/
def readPriority? : Element → Option Nat
  | .mk "priority" [] digits [] =>
    if digits.toList ≠ [] ∧ digits.toList.all Char.isDigit then
      some (Nat.ofDigitChars 10 digits.toList 0)
    else none
  | _ => none

/-- A reference may have properties. -/
def readReference? (path : String) : List Element → Option PmdRule
  | [] => some (.reference path [])
  | [.mk "properties" [] "" properties] => (properties.mapM Element.property?).map (.reference path)
  | _ => none

/-- The only property of a rule of its own is the expression, which is an element there. -/
def readExpression? : List Element → Option String
  | [.mk "properties" [] "" [.mk "property" [("name", "xpath")] "" [.mk "value" [] expression []]]] =>
    some expression
  | _ => none

def readRule? : Element → Option (Nat × PmdRule)
  | .mk "rule" attributes "" (priority :: rest) =>
    (readPriority? priority).bind fun n =>
      match attributes with
      | [("ref", path)] => (readReference? path rest).map (n, ·)
      | [("name", name), ("language", language), ("message", message), ("class", type)] =>
        if language = "java" ∧ type = xpathClass then
          (readExpression? rest).map fun expression => (n, .xpath name message expression)
        else none
      | _ => none
  | _ => none

/-- The rules of a ruleset, each with its priority. The header leaves the ruleset open. -/
def readRuleset? (text : String) : Option (List (Nat × PmdRule)) :=
  ((Text.afterLead? header.toList text.toList).bind (readDocument? ["ruleset"])).bind fun
    | .mk _ _ text content => if text.toList.all isSpace then content.mapM readRule? else none

/-! ### How rules are written -/

def rulesetName : Name := ⟨"ruleset".toList, by simp [inName, isSpace]⟩

def ruleName : Name := ⟨"rule".toList, by simp [inName, isSpace]⟩

def priorityName : Name := ⟨"priority".toList, by simp [inName, isSpace]⟩

def propertiesName : Name := ⟨"properties".toList, by simp [inName, isSpace]⟩

def referenceInside (path : String) : Inside :=
  .plain [(⟨"ref".toList, by simp [inName, isSpace]⟩, path)]

def messageKey : Name := ⟨['m', 'e', 's', 's', 'a', 'g', 'e'], by simp [inName, isSpace]⟩

def xpathInside (name message : String) : Inside :=
  .plain [(nameKey, name), (⟨"language".toList, by simp [inName, isSpace]⟩, "java"),
    (messageKey, message),
    (⟨"class".toList, by simp [inName, isSpace]⟩, xpathClass)]

def noAttributes : Inside :=
  .plain []

def expressionInside : Inside :=
  .plain [(nameKey, "xpath")]

/-- Text in an element of its own. -/
def leafText (name : Name) (text : List Char) : List Char :=
  (Mark.opening name noAttributes).text ++ (escapeChars text ++ (Mark.closing name noSpaces).text)

theorem text_referenceOpening (path : String) :
    (Mark.opening ruleName (referenceInside path)).text =
      "<rule ref=\"".toList ++ (escapeChars path.toList ++ "\">".toList) := by
  have opening : "<rule ref=\"".toList = '<' :: (ruleName.1 ++ ' ' :: ("ref".toList ++ ['=', '"'])) := rfl
  have ending : "\">".toList = ['"', '>'] := rfl
  rw [referenceInside, Mark.text_opening, opening, ending]
  simp only [attributesText_cons, attributesText_nil, List.append_assoc, List.cons_append, List.nil_append]

theorem text_xpathOpening (name message : String) :
    (Mark.opening ruleName (xpathInside name message)).text =
      "<rule name=\"".toList ++ (escapeChars name.toList ++ ("\" language=\"java\" message=\"".toList ++
        (escapeChars message.toList ++ ("\" class=\"".toList ++ (xpathClass.toList ++ "\">".toList))))) := by
  have opening : "<rule name=\"".toList = '<' :: (ruleName.1 ++ ' ' :: (nameKey.1 ++ ['=', '"'])) := rfl
  have language : "\" language=\"java\" message=\"".toList =
      '"' :: ' ' :: ("language".toList ++ '=' :: '"' :: (escapeChars "java".toList ++ '"' :: ' ' ::
        (messageKey.1 ++ ['=', '"']))) := by decide
  have type : "\" class=\"".toList = '"' :: ' ' :: ("class".toList ++ ['=', '"']) := rfl
  have plain : escapeChars xpathClass.toList = xpathClass.toList := by decide
  have ending : "\">".toList = ['"', '>'] := rfl
  rw [xpathInside, Mark.text_opening, opening, language, type, ending]
  simp only [attributesText_cons, attributesText_nil, List.append_assoc, List.cons_append, List.nil_append,
    plain]

/-- No digit is markup. -/
theorem escapeChars_toString (n : Nat) : escapeChars (toString n).toList = (toString n).toList := by
  have digits : ∀ c ∈ (toString n).toList, escapeChar c = [c] := by
    intro c member
    have text : (toString n).toList = Nat.toDigits 10 n := Nat.toList_repr
    rw [text] at member
    have digit := Nat.isDigit_of_mem_toDigits (by decide) (by decide) member
    unfold escapeChar
    split
    all_goals first | rfl | exact absurd digit (by decide)
  rw [escapeChars, List.flatMap_congr digits, List.flatMap_singleton']

theorem toList_priorityLine (priority : Nat) :
    (priorityLine priority).toList =
      (blanks 4).1 ++ (leafText priorityName (toString priority).toList ++ lineEnd.1) := by
  have line : priorityLine priority = "    <priority>" ++ toString priority ++ "</priority>\n" := rfl
  have opening : "    <priority>".toList =
      (blanks 4).1 ++ (Mark.opening priorityName noAttributes).text := rfl
  have closing : "</priority>\n".toList = (Mark.closing priorityName noSpaces).text ++ lineEnd.1 := rfl
  simp only [line, leafText, escapeChars_toString, String.toList_append, opening, closing,
    List.append_assoc]

theorem toList_propertyLine (p : String × String) :
    (propertyLine p).toList = (blanks 6).1 ++ ((propertyMark p).text ++ lineEnd.1) := by
  have line : propertyLine p = "      <property name=\"" ++ escape p.1 ++ "\" value=\"" ++ escape p.2 ++
      "\"/>\n" := rfl
  have opening : "      <property name=\"".toList = (blanks 6).1 ++ "<property name=\"".toList := rfl
  have ending : "\"/>\n".toList = "\"/>".toList ++ lineEnd.1 := rfl
  simp only [line, text_propertyMark, String.toList_append, toList_escape, opening, ending,
    List.append_assoc]

/-- The lines of the properties of a reference. -/
def propertiesLines (properties : List (String × String)) : List Char :=
  if properties = [] then []
  else
    elementLines (blanks 4).1 propertiesName noAttributes
      (properties.flatMap fun p => (propertyLine p).toList)

theorem toList_render_reference (priority : Nat) (path : String) (properties : List (String × String)) :
    ((PmdRule.reference path properties).render priority).toList =
      elementLines (blanks 2).1 ruleName (referenceInside path)
        ((priorityLine priority).toList ++ propertiesLines properties) := by
  have whole : (PmdRule.reference path properties).render priority =
      "  <rule ref=\"" ++ escape path ++ "\">\n" ++ priorityLine priority ++
        (if properties.isEmpty then ""
        else
          "    <properties>\n" ++ String.join (properties.map propertyLine) ++ "    </properties>\n") ++
        "  </rule>\n" := rfl
  have opening : "  <rule ref=\"".toList = (blanks 2).1 ++ "<rule ref=\"".toList := rfl
  have openEnd : "\">\n".toList = "\">".toList ++ lineEnd.1 := rfl
  have closing : "  </rule>\n".toList =
      (blanks 2).1 ++ ((Mark.closing ruleName noSpaces).text ++ lineEnd.1) := rfl
  have propertiesOpening : "    <properties>\n".toList =
      (blanks 4).1 ++ ((Mark.opening propertiesName noAttributes).text ++ lineEnd.1) := rfl
  have propertiesClosing : "    </properties>\n".toList =
      (blanks 4).1 ++ ((Mark.closing propertiesName noSpaces).text ++ lineEnd.1) := rfl
  simp only [whole, propertiesLines, List.isEmpty_iff]
  split
  · simp only [String.toList_append, toList_escape, elementLines, text_referenceOpening, opening, openEnd,
      closing, List.append_assoc, List.nil_append, String.toList_empty]
  · simp only [String.toList_append, String.toList_join, toList_escape, elementLines,
      text_referenceOpening, opening, openEnd, closing, propertiesOpening, propertiesClosing,
      List.append_assoc, List.flatMap_map]

/-- The lines of the expression of a rule of its own. -/
def expressionLines (expression : String) : List Char :=
  elementLines (blanks 4).1 propertiesName noAttributes
    (elementLines (blanks 6).1 propertyName expressionInside
      ((blanks 8).1 ++ (leafText valueKey expression.toList ++ lineEnd.1)))

theorem toList_render_xpath (priority : Nat) (name message expression : String) :
    ((PmdRule.xpath name message expression).render priority).toList =
      elementLines (blanks 2).1 ruleName (xpathInside name message)
        ((priorityLine priority).toList ++ expressionLines expression) := by
  have whole : (PmdRule.xpath name message expression).render priority =
      "  <rule name=\"" ++ escape name ++ "\" language=\"java\" message=\"" ++ escape message ++
        "\" class=\"" ++ xpathClass ++ "\">\n" ++ priorityLine priority ++
        "    <properties>\n      <property name=\"xpath\">\n        <value>" ++ escape expression ++
        "</value>\n      </property>\n    </properties>\n  </rule>\n" := rfl
  have opening : "  <rule name=\"".toList = (blanks 2).1 ++ "<rule name=\"".toList := rfl
  have openEnd : "\">\n".toList = "\">".toList ++ lineEnd.1 := rfl
  have before : "    <properties>\n      <property name=\"xpath\">\n        <value>".toList =
      (blanks 4).1 ++ ((Mark.opening propertiesName noAttributes).text ++ (lineEnd.1 ++ ((blanks 6).1 ++
        ((Mark.opening propertyName expressionInside).text ++ (lineEnd.1 ++ ((blanks 8).1 ++
          (Mark.opening valueKey noAttributes).text)))))) := rfl
  have behind : "</value>\n      </property>\n    </properties>\n  </rule>\n".toList =
      (Mark.closing valueKey noSpaces).text ++ (lineEnd.1 ++ ((blanks 6).1 ++
        ((Mark.closing propertyName noSpaces).text ++ (lineEnd.1 ++ ((blanks 4).1 ++
          ((Mark.closing propertiesName noSpaces).text ++ (lineEnd.1 ++ ((blanks 2).1 ++
            ((Mark.closing ruleName noSpaces).text ++ lineEnd.1))))))))) := rfl
  simp only [whole, String.toList_append, toList_escape, expressionLines, elementLines, leafText,
    text_xpathOpening, opening, openEnd, before, behind, List.append_assoc]

/-! ### What they are read as -/

def priorityElement (priority : Nat) : Element :=
  .mk "priority" [] (toString priority) []

def propertiesElements (properties : List (String × String)) : List Element :=
  if properties = [] then [] else [.mk "properties" [] "" (properties.map Element.property)]

def expressionElement (expression : String) : Element :=
  .mk "properties" [] "" [.mk "property" [("name", "xpath")] "" [.mk "value" [] expression []]]

def PmdRule.element (priority : Nat) : PmdRule → Element
  | .reference path properties =>
    .mk "rule" [("ref", path)] "" (priorityElement priority :: propertiesElements properties)
  | .xpath name message expression =>
    .mk "rule" [("name", name), ("language", "java"), ("message", message), ("class", xpathClass)] ""
      [priorityElement priority, expressionElement expression]

theorem readPriority?_element (priority : Nat) : readPriority? (priorityElement priority) = some priority := by
  have text : (toString priority).toList = Nat.toDigits 10 priority := Nat.toList_repr
  have digits : (Nat.toDigits 10 priority).all Char.isDigit = true :=
    List.all_eq_true.mpr fun _ member => Nat.isDigit_of_mem_toDigits (by decide) (by decide) member
  have value : Nat.ofDigitChars 10 (Nat.toDigits 10 priority) 0 = priority := Nat.ofDigitChars_ten_toDigits
  simp only [priorityElement, readPriority?, text]
  rw [if_pos ⟨Nat.toDigits_ne_nil, digits⟩, value]

theorem readReference?_properties (path : String) (properties : List (String × String)) :
    readReference? path (propertiesElements properties) = some (.reference path properties) := by
  unfold propertiesElements
  split
  · rename_i empty
    rw [empty]
    rfl
  · simp only [readReference?, Element.mapM_property, Option.map_some]

theorem PmdRule.readRule?_element (priority : Nat) (rule : PmdRule) :
    readRule? (rule.element priority) = some (priority, rule) := by
  cases rule with
  | reference path properties =>
    simp only [element, readRule?, readPriority?_element, Option.bind_some, readReference?_properties,
      Option.map_some]
  | xpath name message expression =>
    simp only [element, readRule?, readPriority?_element, Option.bind_some, and_self, if_true,
      expressionElement, readExpression?, Option.map_some]

theorem reads_priorityLine (priority : Nat) :
    Reads (priorityLine priority).toList [priorityElement priority] := by
  rw [toList_priorityLine]
  exact (Reads.leaf priorityName noAttributes (toString priority) noSpaces).between (blanks 4) lineEnd

theorem reads_propertyLine (p : String × String) : Reads (propertyLine p).toList [.property p] := by
  rw [toList_propertyLine]
  exact (Reads.property p).between (blanks 6) lineEnd

theorem reads_propertiesLines (properties : List (String × String)) :
    Reads (propertiesLines properties) (propertiesElements properties) := by
  unfold propertiesLines propertiesElements
  split
  · exact Reads.nil
  · rename_i nonempty
    exact (Reads.flatMap reads_propertyLine properties).lines_some (blanks 4)
      (by simpa using nonempty) propertiesName noAttributes

theorem reads_expressionLines (expression : String) :
    Reads (expressionLines expression) [expressionElement expression] := by
  have value := (Reads.leaf valueKey noAttributes expression noSpaces).between (blanks 8) lineEnd
  have property := value.lines_some (blanks 6) (List.cons_ne_nil _ _) propertyName
    expressionInside
  exact property.lines_some (blanks 4) (List.cons_ne_nil _ _) propertiesName noAttributes

theorem reads_rule (priority : Nat) (rule : PmdRule) :
    Reads (rule.render priority).toList [rule.element priority] := by
  cases rule with
  | reference path properties =>
    rw [toList_render_reference]
    have inner := (reads_priorityLine priority).append (reads_propertiesLines properties)
    exact inner.lines_some (blanks 2) (List.cons_ne_nil _ _) ruleName (referenceInside path)
  | xpath name message expression =>
    rw [toList_render_xpath]
    have inner := (reads_priorityLine priority).append (reads_expressionLines expression)
    exact inner.lines_some (blanks 2) (List.cons_ne_nil _ _) ruleName
      (xpathInside name message)

/-! ### The whole of it -/

theorem toList_render (priority : Nat) (rules : List PmdRule) :
    (render priority rules).toList = header.toList ++
      ((rules.flatMap fun rule => (rule.render priority).toList) ++
        ((Mark.closing rulesetName noSpaces).text ++ lineEnd.1)) := by
  have closing : "</ruleset>\n".toList = (Mark.closing rulesetName noSpaces).text ++ lineEnd.1 := rfl
  simp only [render, String.toList_append, String.toList_join, closing, List.append_assoc, List.flatMap_map]

theorem mapM_readRule? (priority : Nat) (rules : List PmdRule) :
    (rules.map (PmdRule.element priority)).mapM readRule? = some (rules.map (priority, ·)) := by
  induction rules with
  | nil => rfl
  | cons rule rules ih => simp [PmdRule.readRule?_element, ih]

theorem readRuleset?_render (priority : Nat) (rules : List PmdRule) :
    readRuleset? (render priority rules) = some (rules.map (priority, ·)) := by
  obtain ⟨text, document⟩ := (Reads.flatMap (reads_rule priority) rules).rest rulesetName noSpaces lineEnd
  have spaces : (String.ofList text.1).toList.all isSpace = true := by
    rw [String.toList_ofList, text.all]
  rw [readRuleset?, toList_render, Text.afterLead?_append, Option.bind_some]
  refine (congrArg (Option.bind · _) document).trans ?_
  simp only [Option.bind_some, spaces, if_true, mapM_readRule?]

/-- The ruleset of any rules reads as those rules, in order and each with its priority. Rules with one
ruleset are the same. -/
theorem ruleset_read (priority : Nat) (rules : List PmdRule) :
    readRuleset? (render priority rules) = some (rules.map (priority, ·)) ∧
      ∀ priority' rules', render priority' rules' = render priority rules → rules' = rules := by
  refine ⟨readRuleset?_render priority rules, fun priority' rules' same => ?_⟩
  have read := readRuleset?_render priority' rules'
  rw [same, readRuleset?_render] at read
  have rules_eq := congrArg (List.map Prod.snd) (Option.some.inj read)
  simpa [Function.comp_def] using rules_eq.symm

end PolicyLint.Tool.Pmd
