import PolicyLint.Proofs.Query.Determined
import PolicyLint.Tool.Pmd
/-!
What an XPath expression tells of its query. An apostrophe inside a text is written twice, so a text ends
at the first one that stands alone. Main statement: an expression determines the node, the constraints on
attributes that have a name in XPath and the containments, whatever their texts hold; and the rules for
two patterns on one target have different expressions.
-/
namespace PolicyLint

namespace Query

/-! ### Texts between apostrophes -/

/-- The characters of a text with each apostrophe twice. -/
def doubled (cs : List Char) : List Char :=
  cs.flatMap fun c => if c = '\x27' then ['\x27', '\x27'] else [c]

theorem doubled_cons (c : Char) (cs : List Char) :
    doubled (c :: cs) = if c = '\x27' then '\x27' :: '\x27' :: doubled cs else c :: doubled cs := by
  by_cases mark : c = '\x27' <;> simp [doubled, mark]

/-- An apostrophe that no other one follows starts no text. -/
theorem mark_ne_doubled {c : Char} {cs rest rest' : List Char} (alone : rest.head? ≠ some '\x27') :
    '\x27' :: rest ≠ doubled (c :: cs) ++ '\x27' :: rest' := by
  intro same
  rw [doubled_cons] at same
  split at same
  · have follows : rest = '\x27' :: (doubled cs ++ '\x27' :: rest') := (List.cons.inj same).2
    exact alone (congrArg List.head? follows)
  · rename_i other
    exact other (List.cons.inj same).1.symm

/-- A text ends at the first apostrophe that stands alone. -/
theorem doubled_inj {cs cs' rest rest' : List Char} (alone : rest.head? ≠ some '\x27')
    (alone' : rest'.head? ≠ some '\x27')
    (same : doubled cs ++ '\x27' :: rest = doubled cs' ++ '\x27' :: rest') : cs = cs' ∧ rest = rest' := by
  induction cs generalizing cs' with
  | nil =>
    cases cs' with
    | nil => exact ⟨rfl, (List.cons.inj same).2⟩
    | cons c' cs' => exact absurd same (mark_ne_doubled alone)
  | cons c cs ih =>
    cases cs' with
    | nil => exact absurd same.symm (mark_ne_doubled alone')
    | cons c' cs' =>
      rw [doubled_cons, doubled_cons] at same
      split at same <;> split at same <;> rename_i mark mark'
      · obtain ⟨texts, rests⟩ := ih (List.cons.inj (List.cons.inj same).2).2
        exact ⟨by rw [mark, mark', texts], rests⟩
      · exact absurd (List.cons.inj same).1.symm mark'
      · exact absurd (List.cons.inj same).1 mark
      · obtain ⟨heads, tails⟩ := List.cons.inj same
        obtain ⟨texts, rests⟩ := ih tails
        exact ⟨by rw [heads, texts], rests⟩

theorem apostrophed_injective {s s' : String} (same : apostrophed s = apostrophed s') : s = s' := by
  have alone : ([] : List Char).head? ≠ some '\x27' := nofun
  have closed : doubled s.toList ++ ['\x27'] = doubled s'.toList ++ ['\x27'] :=
    congrArg (· ++ ['\x27']) same
  exact String.toList_inj.mp (doubled_inj alone alone closed).1

/-! ### Literals -/

def Scalar.isNumber : Scalar → Bool
  | .number _ => true
  | .bool _ | .text _ => false

theorem Scalar.toList_literal_text (t : String) :
    (Scalar.text t).literal.toList = '\x27' :: (doubled t.toList ++ ['\x27']) := by
  simp [Scalar.literal, apostrophed, doubled]

/-- A truth value or a text ends where its predicate is closed. -/
theorem Scalar.literal_inj_of_append {s s' : Scalar} {rest rest' : List Char} (wordy : s.isNumber = false)
    (wordy' : s'.isNumber = false)
    (same : s.literal.toList ++ ']' :: rest = s'.literal.toList ++ ']' :: rest') :
    s = s' ∧ rest = rest' := by
  cases s with
  | number n => cases wordy
  | bool b =>
    cases s' with
    | number n => cases wordy'
    | bool b' => cases b <;> cases b' <;> simp_all [Scalar.literal]
    | text t => cases b <;> simp [Scalar.literal] at same
  | text t =>
    cases s' with
    | number n => cases wordy'
    | bool b => cases b <;> simp [Scalar.literal] at same
    | text t' =>
      simp only [toList_literal_text, List.cons_append, List.append_assoc, List.nil_append,
        List.cons.injEq, true_and] at same
      obtain ⟨texts, rests⟩ := doubled_inj (by simp) (by simp) same
      exact ⟨congrArg Scalar.text (String.toList_inj.mp texts), (List.cons.inj rests).2⟩

/-! ### Predicates -/

/-- What stands in brackets behind a node. -/
inductive Predicate where
  | equals (constraint : Constraint)
  | within (containment : Containment)

/-- The constraints on attributes that have a name in XPath. -/
def named (query : AstQuery) : List Constraint :=
  (constraints query).filter fun c => isAttributeName c.key

def predicates (query : AstQuery) : List Predicate :=
  (named query).map .equals ++ (containments query).map .within

def Predicate.chars : Predicate → List Char
  | .equals c => c.xpath.toList
  | .within k => k.xpath.toList

theorem toList_xpath (query : AstQuery) : (xpath query).toList =
    '/' :: '/' :: (query.node.toList ++ (predicates query).flatMap Predicate.chars) := by
  simp [xpath_eq, predicates, named, Predicate.chars, List.flatMap_def, Function.comp_def]

theorem Constraint.toList_xpath (c : Constraint) : c.xpath.toList =
    '[' :: '@' :: (c.key.toList ++ ' ' :: '=' :: ' ' :: (c.scalar.literal.toList ++ [']'])) := by
  simp [Constraint.xpath]

theorem Containment.toList_xpath_lacks (node : String) : (Containment.lacks node).xpath.toList =
    '[' :: 'n' :: ("ot(.//".toList ++ (node.toList ++ [')', ']'])) := by
  simp [Containment.xpath]

theorem Containment.toList_xpath_contains (node : String) : (Containment.contains node).xpath.toList =
    '[' :: '.' :: ("//".toList ++ (node.toList ++ [']'])) := by
  simp [Containment.xpath]

/-- A letter, a digit, `_`, `-` or `.`; outside ASCII every character counts as a letter. -/
def isXmlNameChar (c : Char) : Bool :=
  Text.isAsciiAlphanum c || c = '_' || c = '-' || c = '.' || 128 ≤ c.toNat

def IsXmlName (name : String) : Prop :=
  ∀ c ∈ name.toList, isXmlNameChar c = true

instance (name : String) : Decidable (IsXmlName name) :=
  decidable_of_iff (name.toList.all isXmlNameChar = true) List.all_eq_true

theorem IsXmlName.not_mem {name : String} {c : Char} (plain : IsXmlName name)
    (other : isXmlNameChar c = false) : c ∉ name.toList := fun member => by
  rw [plain c member] at other
  cases other

/-- A predicate that is read back to its end: a name that stops at a blank and a truth value or a text, or
a node that stops at a bracket. -/
def Predicate.IsPlain : Predicate → Prop
  | .equals c => isAttributeName c.key = true ∧ c.scalar.isNumber = false
  | .within k => IsXmlName k.node

theorem not_mem_attributeName {key : String} (plain : isAttributeName key = true) :
    ' ' ∉ key.toList := by
  intro member
  rcases ((isAttributeName_iff key).mp plain).2 ' ' member with letter | line
  · exact absurd letter (by decide)
  · exact absurd line (by decide)

theorem Constraint.xpath_inj_of_append {c c' : Constraint} {rest rest' : List Char}
    (plain : (Predicate.equals c).IsPlain) (plain' : (Predicate.equals c').IsPlain)
    (same : c.xpath.toList ++ rest = c'.xpath.toList ++ rest') : c = c' ∧ rest = rest' := by
  simp only [Constraint.toList_xpath, List.cons_append, List.append_assoc, List.nil_append,
    List.cons.injEq, true_and] at same
  obtain ⟨keys, same⟩ := Text.append_mark_inj (not_mem_attributeName plain.1)
    (not_mem_attributeName plain'.1) same
  simp only [List.cons.injEq, true_and] at same
  obtain ⟨scalars, rests⟩ := Scalar.literal_inj_of_append plain.2 plain'.2 same
  obtain ⟨key, scalar⟩ := c
  obtain ⟨key', scalar'⟩ := c'
  obtain rfl : key = key' := String.toList_inj.mp keys
  obtain rfl : scalar = scalar' := scalars
  exact ⟨rfl, rests⟩

theorem Containment.xpath_inj_of_append {k k' : Containment} {rest rest' : List Char}
    (plain : IsXmlName k.node) (plain' : IsXmlName k'.node)
    (same : k.xpath.toList ++ rest = k'.xpath.toList ++ rest') : k = k' ∧ rest = rest' := by
  cases k with
  | lacks node =>
    cases k' with
    | lacks node' =>
      simp only [toList_xpath_lacks, List.cons_append, List.append_assoc, List.nil_append,
        List.cons.injEq, true_and, List.append_cancel_left_eq] at same
      obtain ⟨nodes, rests⟩ := Text.append_mark_inj (plain.not_mem (by decide))
        (plain'.not_mem (by decide)) same
      exact ⟨congrArg lacks (String.toList_inj.mp nodes), (List.cons.inj rests).2⟩
    | contains node' => simp [toList_xpath_lacks, toList_xpath_contains] at same
  | contains node =>
    cases k' with
    | lacks node' => simp [toList_xpath_lacks, toList_xpath_contains] at same
    | contains node' =>
      simp only [toList_xpath_contains, List.cons_append, List.append_assoc, List.nil_append,
        List.cons.injEq, true_and, List.append_cancel_left_eq] at same
      obtain ⟨nodes, rests⟩ := Text.append_mark_inj (plain.not_mem (by decide))
        (plain'.not_mem (by decide)) same
      exact ⟨congrArg contains (String.toList_inj.mp nodes), rests⟩

theorem Predicate.chars_ne_nil (p : Predicate) : p.chars ≠ [] := by
  cases p with
  | equals c => simp [chars, Constraint.toList_xpath]
  | within k => cases k <;> simp [chars, Containment.xpath]

/-- The second character tells a constraint from a containment. -/
theorem equals_ne_within (c : Constraint) (k : Containment) (rest rest' : List Char) :
    c.xpath.toList ++ rest ≠ k.xpath.toList ++ rest' := by
  cases k <;>
    simp [Constraint.toList_xpath, Containment.toList_xpath_lacks, Containment.toList_xpath_contains]

theorem Predicate.inj_of_append {p p' : Predicate} {rest rest' : List Char} (plain : p.IsPlain)
    (plain' : p'.IsPlain) (same : p.chars ++ rest = p'.chars ++ rest') : p = p' ∧ rest = rest' := by
  cases p with
  | equals c =>
    cases p' with
    | equals c' =>
      obtain ⟨constraints, rests⟩ := Constraint.xpath_inj_of_append plain plain' same
      exact ⟨congrArg equals constraints, rests⟩
    | within k => exact absurd same (equals_ne_within c k rest rest')
  | within k =>
    cases p' with
    | equals c => exact absurd same.symm (equals_ne_within c k rest' rest)
    | within k' =>
      obtain ⟨containments, rests⟩ := Containment.xpath_inj_of_append plain plain' same
      exact ⟨congrArg within containments, rests⟩

theorem predicates_inj {ps ps' : List Predicate} (plain : ∀ p ∈ ps, p.IsPlain)
    (plain' : ∀ p ∈ ps', p.IsPlain)
    (same : ps.flatMap Predicate.chars = ps'.flatMap Predicate.chars) : ps = ps' :=
  Text.flatMap_inj_of_append Predicate.chars_ne_nil Predicate.inj_of_append plain plain' same

/-! ### Queries -/

/-- XML names as node types, and no constraint on a number; keys and texts are free. -/
structure IsXmlPlain (query : AstQuery) : Prop where
  node : IsXmlName query.node
  values : ∀ c ∈ named query, c.scalar.isNumber = false
  has : ∀ name ∈ query.has, IsXmlName name
  hasNot : ∀ name ∈ query.hasNot, IsXmlName name

instance (query : AstQuery) : Decidable (IsXmlPlain query) :=
  decidable_of_iff (IsXmlName query.node ∧ (∀ c ∈ named query, c.scalar.isNumber = false) ∧
      (∀ name ∈ query.has, IsXmlName name) ∧ ∀ name ∈ query.hasNot, IsXmlName name)
    ⟨fun ⟨node, values, has, hasNot⟩ => ⟨node, values, has, hasNot⟩,
      fun ⟨node, values, has, hasNot⟩ => ⟨node, values, has, hasNot⟩⟩

theorem containments_isXmlName {query : AstQuery} (has : ∀ name ∈ query.has, IsXmlName name)
    (hasNot : ∀ name ∈ query.hasNot, IsXmlName name) :
    ∀ k ∈ containments query, IsXmlName k.node := by
  intro k member
  rcases List.mem_append.mp member with lacks | contains
  · obtain ⟨name, among, rfl⟩ := List.mem_map.mp lacks
    exact has name among
  · obtain ⟨name, among, rfl⟩ := List.mem_map.mp contains
    exact hasNot name among

theorem IsXmlPlain.predicates {query : AstQuery} (plain : IsXmlPlain query) :
    ∀ p ∈ predicates query, p.IsPlain := by
  intro p member
  rcases List.mem_append.mp member with equals | within
  · obtain ⟨c, among, rfl⟩ := List.mem_map.mp equals
    exact ⟨(List.mem_filter.mp among).2, plain.values c among⟩
  · obtain ⟨k, among, rfl⟩ := List.mem_map.mp within
    exact containments_isXmlName plain.has plain.hasNot k among

def Predicate.constraint? : Predicate → Option Constraint
  | .equals c => some c
  | .within _ => none

def Predicate.containment? : Predicate → Option Containment
  | .equals _ => none
  | .within k => some k

theorem named_eq (query : AstQuery) :
    (predicates query).filterMap Predicate.constraint? = named query := by
  simp [predicates, List.filterMap_append, List.filterMap_map, Function.comp_def,
    Predicate.constraint?]

theorem containments_eq (query : AstQuery) :
    (predicates query).filterMap Predicate.containment? = containments query := by
  simp [predicates, List.filterMap_append, List.filterMap_map, Function.comp_def,
    Predicate.containment?]

/-- The containments are the two lists, of what a node should have and of what it should not. -/
theorem containments_inj_iff {query query' : AstQuery} :
    containments query = containments query' ↔
      query.has = query'.has ∧ query.hasNot = query'.hasNot := by
  constructor
  · intro same
    exact ⟨by rw [← has_eq, same, has_eq], by rw [← hasNot_eq, same, hasNot_eq]⟩
  · rintro ⟨has, hasNot⟩
    rw [containments, containments, has, hasNot]

theorem xpath_inj {query query' : AstQuery} (plain : IsXmlPlain query) (plain' : IsXmlPlain query')
    (same : xpath query = xpath query') :
    query.node = query'.node ∧ predicates query = predicates query' := by
  have texts := congrArg String.toList same
  simp only [toList_xpath, List.cons.injEq, true_and] at texts
  have stop : ∀ (query : AstQuery) (c : Char),
      ((predicates query).flatMap Predicate.chars).head? = some c → isXmlNameChar c = false := by
    intro query c head
    cases listed : predicates query with
    | nil => simp [listed] at head
    | cons p ps =>
      obtain rfl : '[' = c := by
        rcases p with constraint | (node | node) <;>
          simpa [listed, Predicate.chars, Constraint.toList_xpath, Containment.toList_xpath_lacks,
            Containment.toList_xpath_contains] using head
      decide
  obtain ⟨nodes, tails⟩ := Text.append_inj_of_stop plain.node plain'.node (stop query) (stop query') texts
  exact ⟨String.toList_inj.mp nodes, predicates_inj plain.predicates plain'.predicates tails⟩

end Query

/-! ### Naming patterns -/

namespace Tool.Pmd

theorem patternExpression_inj {target pattern pattern' : String}
    (same : patternExpression ⟨target, pattern⟩ = patternExpression ⟨target, pattern'⟩) :
    pattern = pattern' := by
  have texts := congrArg String.toList same
  simp only [patternExpression, String.toList_append, String.toList_ofList, List.append_assoc,
    List.append_cancel_left_eq, List.append_cancel_right_eq] at texts
  exact Query.apostrophed_injective texts

theorem rulesFor_pattern {rule : Rule} {check : PatternCheck} (reads : rule.spec = .ok (.pattern check))
    (targeted : check.target ≠ "") :
    rulesFor rule = .ok [.xpath rule.id
      (messageOf rule s!"{check.target} name does not match {check.pattern}")
      (patternExpression check)] := by
  rw [rulesFor, reads]
  simp only [bind, Except.bind, patternRules, if_neg targeted]
  rfl

end Tool.Pmd

open Tool Query

/-- Queries of XML names, with whatever keys and texts, that have the same expression have the same node,
the same constraints on attributes with a name, and the same containments. The rules for different patterns
on one target have different expressions. -/
theorem Tool.Pmd.expression_determines :
    (∀ {query query' : AstQuery}, IsXmlPlain query → IsXmlPlain query' →
      xpath query = xpath query' →
      query.node = query'.node ∧ named query = named query' ∧ query.has = query'.has ∧
        query.hasNot = query'.hasNot) ∧
    ∀ {rule rule' : Rule} {target pattern pattern' : String}, target ≠ "" →
      rule.spec = .ok (.pattern ⟨target, pattern⟩) → rule'.spec = .ok (.pattern ⟨target, pattern'⟩) →
      pattern ≠ pattern' →
      ∃ message expression message' expression',
        Pmd.rulesFor rule = .ok [.xpath rule.id message expression] ∧
        Pmd.rulesFor rule' = .ok [.xpath rule'.id message' expression'] ∧ expression ≠ expression' := by
  constructor
  · intro query query' plain plain' same
    obtain ⟨nodes, predicates⟩ := xpath_inj plain plain' same
    have constraints := congrArg (List.filterMap Predicate.constraint?) predicates
    have containments := congrArg (List.filterMap Predicate.containment?) predicates
    rw [named_eq, named_eq] at constraints
    rw [containments_eq, containments_eq] at containments
    exact ⟨nodes, constraints, containments_inj_iff.mp containments⟩
  · intro rule rule' target pattern pattern' targeted reads reads' other
    exact ⟨_, _, _, _, Pmd.rulesFor_pattern reads targeted, Pmd.rulesFor_pattern reads' targeted,
      fun same => other (Pmd.patternExpression_inj same)⟩

/-- A text that spells out the end of its own predicate, under an operator map, among attributes that have
no literal or no name. -/
def Query.hostile : AstQuery :=
  { AstQuery.ofNode "Method" with
    attributes := [("Name", .object [("ne", .null), ("eq", .string "a\x27][@B = \x27b")]),
      ("Tags", .array [.null]), ("body.size", .bool true)]
    has := ["Try"] }

/-- The same text, without the map and alone. -/
def Query.hostileAlone : AstQuery :=
  { AstQuery.ofNode "Method" with
    attributes := [("Kind", .null), ("Name", .string "a\x27][@B = \x27b")]
    has := ["Try"] }

/-- A rule on the names of classes. -/
def Rule.onClassNames (pattern : String) : Rule where
  id := "N"
  enabled := true
  category := "naming"
  severity := .warning
  desc := none
  selector := none
  check := ⟨[("engine", .string "pattern"), ("target", .string "Class"), ("pattern", .string pattern)]⟩
  remedy := none
  customMessage := none

theorem Tool.Pmd.hostile_expression_determines :
    (IsXmlPlain hostile ∧ IsXmlPlain hostileAlone ∧ xpath hostile = xpath hostileAlone ∧
      hostile.node = hostileAlone.node ∧ named hostile = named hostileAlone ∧
      hostile.has = hostileAlone.has ∧ hostile.hasNot = hostileAlone.hasNot) ∧
    ∃ message expression message' expression',
      Pmd.rulesFor (.onClassNames "\x27") = .ok [.xpath "N" message expression] ∧
      Pmd.rulesFor (.onClassNames "\x27\x27") = .ok [.xpath "N" message' expression'] ∧
      expression ≠ expression' := by
  have plain : IsXmlPlain hostile := by decide
  have plain' : IsXmlPlain hostileAlone := by decide
  have same : xpath hostile = xpath hostileAlone := by decide +kernel
  have reads : (Rule.onClassNames "\x27").spec = .ok (.pattern ⟨"Class", "\x27"⟩) := by rfl
  have reads' : (Rule.onClassNames "\x27\x27").spec = .ok (.pattern ⟨"Class", "\x27\x27"⟩) := by rfl
  exact ⟨⟨plain, plain', same, Pmd.expression_determines.1 plain plain' same⟩,
    Pmd.expression_determines.2 (by decide) reads reads' (by decide)⟩

end PolicyLint
