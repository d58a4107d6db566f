import Mathlib.Data.List.Infix
import PolicyLint.Proofs.Query.Number
import PolicyLint.Proofs.Text.Apart
/-!
What a selector tells of its query. Main statement: a selector determines the node, the constraints and
the containments, unless a text closes its own constraint and opens another one.
-/
namespace PolicyLint

namespace Query

open Numeric

/-! ### Constraints by their values -/

/-- A scalar as it is compared: numbers count by their values. -/
inductive ScalarValue where
  | bool (value : Bool)
  | number (value : ℚ)
  | text (value : String)

def Scalar.value : Scalar → ScalarValue
  | .bool b => .bool b
  | .number n => .number n.value
  | .text s => .text s

def Constraint.value (c : Constraint) : String × ScalarValue :=
  (c.key, c.scalar.value)

/-! ### Plain queries -/

/-- A letter, a digit, `_` or `$`; outside ASCII every character counts as a letter. -/
def isNameChar (c : Char) : Bool :=
  Text.isAsciiAlphanum c || c = '_' || c = '$' || 128 ≤ c.toNat

def IsName (name : String) : Prop :=
  ∀ c ∈ name.toList, isNameChar c = true

/-- A path of names. -/
def IsKey (key : String) : Prop :=
  ∀ c ∈ key.toList, isNameChar c = true ∨ c = '.'

instance (name : String) : Decidable (IsName name) :=
  decidable_of_iff (name.toList.all isNameChar = true) List.all_eq_true

instance (key : String) : Decidable (IsKey key) :=
  decidable_of_iff (key.toList.all (fun c => isNameChar c || c = '.') = true) (by simp [IsKey])

/-- Names of nodes, and paths of names as keys; the values are free. -/
structure IsPlain (query : AstQuery) : Prop where
  node : IsName query.node
  keys : ∀ entry ∈ query.attributes, IsKey entry.1
  has : ∀ name ∈ query.has, IsName name
  hasNot : ∀ name ∈ query.hasNot, IsName name

instance (query : AstQuery) : Decidable (IsPlain query) :=
  decidable_of_iff (IsName query.node ∧ (∀ entry ∈ query.attributes, IsKey entry.1) ∧
      (∀ name ∈ query.has, IsName name) ∧ ∀ name ∈ query.hasNot, IsName name)
    ⟨fun ⟨node, keys, has, hasNot⟩ => ⟨node, keys, has, hasNot⟩,
      fun ⟨node, keys, has, hasNot⟩ => ⟨node, keys, has, hasNot⟩⟩

/-- A text that, between quotes, closes its constraint and opens another. -/
def Scalar.Breaks : Scalar → Prop
  | .text s => ['"', ']', '['] <:+: s.toList
  | .bool _ | .number _ => False

instance : (s : Scalar) → Decidable s.Breaks
  | .text s => inferInstanceAs (Decidable (['"', ']', '['] <:+: s.toList))
  | .bool _ | .number _ => inferInstanceAs (Decidable False)

/-! ### Texts between quotes -/

/-- What may follow a constraint. -/
def Follows (rest : List Char) : Prop :=
  rest.head? = some '[' ∨ '"' ∉ rest

/-- What closes a text within another one opens a constraint there. -/
theorem breaks_of_longer {s more rest rest' : List Char} (follows : Follows rest) (nonempty : more ≠ [])
    (same : '"' :: ']' :: rest = more ++ '"' :: ']' :: rest') :
    ['"', ']', '['] <:+: s ++ more := by
  match more with
  | [] => exact absurd rfl nonempty
  | [x] => simp at same
  | x :: y :: more =>
    simp only [List.cons_append, List.cons.injEq] at same
    obtain ⟨rfl, rfl, rest_eq⟩ := same
    have quote : '"' ∈ rest := by simp [rest_eq]
    have opens := follows.resolve_right (not_not.mpr quote)
    rw [rest_eq] at opens
    cases more with
    | nil => simp at opens
    | cons z more =>
      obtain rfl : z = '[' := by simpa using opens
      exact ⟨s, more, by simp⟩

theorem quoted_inj {s s' rest rest' : List Char} (whole : ¬ ['"', ']', '['] <:+: s)
    (whole' : ¬ ['"', ']', '['] <:+: s') (follows : Follows rest) (follows' : Follows rest')
    (same : s ++ '"' :: ']' :: rest = s' ++ '"' :: ']' :: rest') : s = s' ∧ rest = rest' := by
  rcases List.append_eq_append_iff.mp same with ⟨more, rfl, left⟩ | ⟨more, rfl, left⟩
  · cases more with
    | nil => simpa using left
    | cons x more => exact absurd (breaks_of_longer follows (List.cons_ne_nil x more) left) whole'
  · cases more with
    | nil => simpa [eq_comm] using left
    | cons x more => exact absurd (breaks_of_longer follows' (List.cons_ne_nil x more) left) whole

/-! ### Scalars -/

theorem bare_chars {s : Scalar} (bare : ∀ t, s ≠ .text t) :
    ∀ c ∈ s.estree.toList, c ≠ ']' ∧ c ≠ '"' := by
  intro c member
  cases s with
  | bool b =>
    have letter : ∀ c ∈ (Scalar.bool b).estree.toList, c ≠ ']' ∧ c ≠ '"' := by
      cases b <;> simp [Scalar.estree, toString]
    exact letter c member
  | number n =>
    have numeral := plainNumber_isNumeral n c member
    constructor
    · rintro rfl
      exact absurd numeral (by decide)
    · rintro rfl
      exact absurd numeral (by decide)
  | text t => exact absurd rfl (bare t)

theorem bool_ne_number (b : Bool) (n : Number) : (Scalar.bool b).estree ≠ (Scalar.number n).estree := by
  intro same
  have letter : 'e' ∈ (Scalar.bool b).estree.toList := by cases b <;> decide
  rw [same] at letter
  exact absurd (plainNumber_isNumeral n _ letter) (by decide)

theorem value_of_estree {s s' : Scalar} (bare : ∀ t, s ≠ .text t) (bare' : ∀ t, s' ≠ .text t)
    (same : s.estree = s'.estree) : s.value = s'.value := by
  cases s with
  | bool b =>
    cases s' with
    | bool b' =>
      have told : ∀ b b' : Bool, (Scalar.bool b).estree = (Scalar.bool b').estree → b = b' := by decide
      rw [told b b' same]
    | number n => exact absurd same (bool_ne_number b n)
    | text t => exact absurd rfl (bare' t)
  | number n =>
    cases s' with
    | bool b => exact absurd same.symm (bool_ne_number b n)
    | number n' => exact congrArg ScalarValue.number (value_of_plainNumber same)
    | text t => exact absurd rfl (bare' t)
  | text t => exact absurd rfl (bare t)

theorem Scalar.toList_text (t : String) :
    (Scalar.text t).estree.toList = '"' :: (t.toList ++ ['"']) := by
  simp [Scalar.estree]

/-- Only a text starts with a quote. -/
theorem text_ne_bare {s : Scalar} (bare : ∀ t, s ≠ .text t) (t : String) (rest rest' : List Char) :
    (Scalar.text t).estree.toList ++ ']' :: rest ≠ s.estree.toList ++ ']' :: rest' := by
  intro same
  have quote := congrArg List.head? same
  rw [Scalar.toList_text] at quote
  cases chars : s.estree.toList with
  | nil => simp [chars] at quote
  | cons c cs =>
    have first := bare_chars bare c (by rw [chars]; exact List.mem_cons_self)
    simp only [chars, List.cons_append, List.head?_cons, Option.some_inj] at quote
    exact first.2 quote.symm

/-- A scalar ends where its constraint is closed. -/
theorem scalar_inj {s s' : Scalar} {rest rest' : List Char}
    (whole : ¬ s.Breaks) (whole' : ¬ s'.Breaks)
    (follows : Follows rest) (follows' : Follows rest')
    (same : s.estree.toList ++ ']' :: rest = s'.estree.toList ++ ']' :: rest') :
    s.value = s'.value ∧ rest = rest' := by
  by_cases text : ∃ t, s = .text t <;> by_cases text' : ∃ t, s' = .text t
  · obtain ⟨t, rfl⟩ := text
    obtain ⟨t', rfl⟩ := text'
    have same : t.toList ++ '"' :: ']' :: rest = t'.toList ++ '"' :: ']' :: rest' := by
      simpa [Scalar.estree] using same
    obtain ⟨texts, rests⟩ := quoted_inj whole whole' follows follows' same
    exact ⟨congrArg ScalarValue.text (String.toList_inj.mp texts), rests⟩
  · obtain ⟨t, rfl⟩ := text
    exact absurd same (text_ne_bare (not_exists.mp text') t _ _)
  · obtain ⟨t, rfl⟩ := text'
    exact absurd same.symm (text_ne_bare (not_exists.mp text) t _ _)
  · have bare := not_exists.mp text
    have bare' := not_exists.mp text'
    obtain ⟨texts, rests⟩ := Text.append_mark_inj (fun member => (bare_chars bare _ member).1 rfl)
      (fun member => (bare_chars bare' _ member).1 rfl) same
    exact ⟨value_of_estree bare bare' (String.toList_inj.mp texts), rests⟩

/-! ### Constraints and containments in a row -/

theorem Constraint.toList_estree (c : Constraint) :
    c.estree.toList = '[' :: (c.key.toList ++ '=' :: (c.scalar.estree.toList ++ [']'])) := by
  simp [Constraint.estree]

/-- A constraint that is read back to its end: its key holds no `=`, its text does not break out. -/
structure Constraint.IsWhole (c : Constraint) : Prop where
  key : '=' ∉ c.key.toList
  scalar : ¬ c.scalar.Breaks

theorem Constraint.inj_of_append {c c' : Constraint} {rest rest' : List Char}
    (whole : c.IsWhole) (whole' : c'.IsWhole) (follows : Follows rest) (follows' : Follows rest')
    (same : c.estree.toList ++ rest = c'.estree.toList ++ rest') :
    c.value = c'.value ∧ rest = rest' := by
  simp only [c.toList_estree, c'.toList_estree, List.cons_append, List.append_assoc, List.nil_append,
    List.cons.injEq, true_and] at same
  obtain ⟨keys, same⟩ := Text.append_mark_inj whole.key whole'.key same
  obtain ⟨scalars, rests⟩ := scalar_inj whole.scalar whole'.scalar follows follows' same
  exact ⟨by rw [value, value, scalars, String.toList_inj.mp keys], rests⟩

theorem follows_constraints (cs : List Constraint) {tail : List Char} (free : '"' ∉ tail) :
    Follows (cs.flatMap (·.estree.toList) ++ tail) := by
  cases cs with
  | nil => exact .inr free
  | cons c cs => exact .inl (by simp [Constraint.toList_estree])

theorem constraints_inj {cs cs' : List Constraint} {tail tail' : List Char}
    (whole : ∀ c ∈ cs, c.IsWhole) (whole' : ∀ c ∈ cs', c.IsWhole)
    (ends : '"' ∉ tail ∧ '[' ∉ tail) (ends' : '"' ∉ tail' ∧ '[' ∉ tail')
    (same : cs.flatMap (·.estree.toList) ++ tail = cs'.flatMap (·.estree.toList) ++ tail') :
    cs.map Constraint.value = cs'.map Constraint.value ∧ tail = tail' := by
  induction cs generalizing cs' with
  | nil =>
    cases cs' with
    | nil => exact ⟨rfl, same⟩
    | cons c' cs' =>
      refine absurd ?_ ends.2
      simp only [List.flatMap_nil, List.nil_append] at same
      simp [same, Constraint.toList_estree]
  | cons c cs ih =>
    cases cs' with
    | nil =>
      refine absurd ?_ ends'.2
      simp only [List.flatMap_nil, List.nil_append] at same
      simp [← same, Constraint.toList_estree]
    | cons c' cs' =>
      rw [List.flatMap_cons, List.flatMap_cons, List.append_assoc, List.append_assoc] at same
      obtain ⟨value, same⟩ := Constraint.inj_of_append (whole c List.mem_cons_self)
        (whole' c' List.mem_cons_self) (follows_constraints cs ends.1)
        (follows_constraints cs' ends'.1) same
      obtain ⟨values, tails⟩ := ih (fun c h => whole c (List.mem_cons_of_mem _ h))
        (fun c h => whole' c (List.mem_cons_of_mem _ h)) same
      exact ⟨by rw [List.map_cons, List.map_cons, value, values], tails⟩

def Containment.node : Containment → String
  | .lacks node | .contains node => node

theorem Containment.toList_lacks (node : String) : (Containment.lacks node).estree.toList =
    ":not(:has(".toList ++ (node.toList ++ [')', ')']) := by
  simp [Containment.estree]

theorem Containment.toList_contains (node : String) : (Containment.contains node).estree.toList =
    ":has(".toList ++ (node.toList ++ [')']) := by
  simp [Containment.estree]

theorem Containment.inj_of_append {k k' : Containment} {rest rest' : List Char}
    (closed : ')' ∉ k.node.toList) (closed' : ')' ∉ k'.node.toList)
    (same : k.estree.toList ++ rest = k'.estree.toList ++ rest') : k = k' ∧ rest = rest' := by
  cases k with
  | lacks node =>
    cases k' with
    | lacks node' =>
      simp only [toList_lacks, List.append_assoc, List.append_cancel_left_eq] at same
      obtain ⟨nodes, rests⟩ := Text.append_mark_inj closed closed' same
      exact ⟨congrArg lacks (String.toList_inj.mp nodes), (List.cons.inj rests).2⟩
    | contains node' => simp [toList_lacks, toList_contains] at same
  | contains node =>
    cases k' with
    | lacks node' => simp [toList_lacks, toList_contains] at same
    | contains node' =>
      simp only [toList_contains, List.append_assoc, List.append_cancel_left_eq] at same
      obtain ⟨nodes, rests⟩ := Text.append_mark_inj closed closed' same
      exact ⟨congrArg contains (String.toList_inj.mp nodes), rests⟩

theorem containments_inj {ks ks' : List Containment} (closed : ∀ k ∈ ks, ')' ∉ k.node.toList)
    (closed' : ∀ k ∈ ks', ')' ∉ k.node.toList)
    (same : ks.flatMap (·.estree.toList) = ks'.flatMap (·.estree.toList)) : ks = ks' := by
  have opens : ∀ k : Containment, k.estree.toList ≠ [] := by
    intro k
    cases k <;> simp [Containment.estree]
  exact Text.flatMap_inj_of_append opens Containment.inj_of_append closed closed' same

/-! ### Queries -/

theorem toList_estree (query : AstQuery) : (estree query).toList =
    query.node.toList ++ ((constraints query).flatMap (·.estree.toList) ++
      (containments query).flatMap (·.estree.toList)) := by
  simp [estree_eq, List.flatMap_def, Function.comp_def]

theorem not_mem_name {name : String} {c : Char} (plain : IsName name) (other : isNameChar c = false) :
    c ∉ name.toList := fun member => by
  rw [plain c member] at other
  cases other

theorem constraint_isWhole {query : AstQuery} (plain : IsPlain query)
    (whole : ∀ c ∈ constraints query, ¬ c.scalar.Breaks) :
    ∀ c ∈ constraints query, c.IsWhole := by
  intro c member
  refine ⟨fun equals => ?_, whole c member⟩
  obtain ⟨entry, among, made⟩ := List.mem_filterMap.mp member
  obtain ⟨scalar, -, rfl⟩ := Option.map_eq_some_iff.mp made
  have := plain.keys entry among _ equals
  exact absurd this (by decide)

theorem containment_isName {query : AstQuery} (plain : IsPlain query) :
    ∀ k ∈ containments query, IsName k.node := by
  intro k member
  rcases List.mem_append.mp member with lacks | contains
  · obtain ⟨name, among, rfl⟩ := List.mem_map.mp lacks
    exact plain.has name among
  · obtain ⟨name, among, rfl⟩ := List.mem_map.mp contains
    exact plain.hasNot name among

/-- The containments hold no bracket and no quote, so none is taken for a constraint. -/
theorem containments_free {ks : List Containment} (names : ∀ k ∈ ks, IsName k.node) :
    '"' ∉ ks.flatMap (·.estree.toList) ∧ '[' ∉ ks.flatMap (·.estree.toList) := by
  have free : ∀ c : Char, isNameChar c = false → c ∉ ":not(:has(".toList → c ∉ [')', ')'] →
      c ∉ ks.flatMap (·.estree.toList) := by
    intro c other lead close member
    obtain ⟨k, among, member⟩ := List.mem_flatMap.mp member
    have name := not_mem_name (names k among) other
    cases k <;> simp_all [Containment.estree, Containment.node]
  exact ⟨free _ (by decide) (by decide) (by decide), free _ (by decide) (by decide) (by decide)⟩

def Containment.lacked? : Containment → Option String
  | .lacks node => some node
  | .contains _ => none

def Containment.contained? : Containment → Option String
  | .lacks _ => none
  | .contains node => some node

theorem has_eq (query : AstQuery) : (containments query).filterMap Containment.lacked? = query.has := by
  simp [containments, List.filterMap_append, List.filterMap_map, Function.comp_def,
    Containment.lacked?]

theorem hasNot_eq (query : AstQuery) :
    (containments query).filterMap Containment.contained? = query.hasNot := by
  simp [containments, List.filterMap_append, List.filterMap_map, Function.comp_def,
    Containment.contained?]

/-- Behind the node comes a bracket or a colon, if anything. -/
theorem stop_of_head (cs : List Constraint) (ks : List Containment) (c : Char)
    (head : (cs.flatMap (·.estree.toList) ++ ks.flatMap (·.estree.toList)).head? = some c) :
    isNameChar c = false := by
  cases cs with
  | cons constraint cs =>
    obtain rfl : '[' = c := by simpa [Constraint.toList_estree] using head
    decide
  | nil =>
    cases ks with
    | nil => simp at head
    | cons k ks =>
      obtain rfl : ':' = c := by
        cases k <;> simpa [Containment.toList_lacks, Containment.toList_contains] using head
      decide

/-- Queries of plain names with the same selector have the same node, the same constraints by value and
the same containments, unless a text breaks out of its quotes. -/
theorem selector_determines {query query' : AstQuery} (plain : IsPlain query)
    (plain' : IsPlain query')
    (whole : ∀ c ∈ constraints query, ¬ c.scalar.Breaks)
    (whole' : ∀ c ∈ constraints query', ¬ c.scalar.Breaks)
    (same : estree query = estree query') :
    query.node = query'.node ∧
    (constraints query).map Constraint.value = (constraints query').map Constraint.value ∧
    query.has = query'.has ∧ query.hasNot = query'.hasNot := by
  have texts := congrArg String.toList same
  rw [toList_estree, toList_estree] at texts
  have names := containment_isName plain
  have names' := containment_isName plain'
  obtain ⟨nodes, texts⟩ := Text.append_inj_of_stop plain.node plain'.node
    (stop_of_head _ _) (stop_of_head _ _) texts
  obtain ⟨values, tails⟩ := constraints_inj (constraint_isWhole plain whole)
    (constraint_isWhole plain' whole') (containments_free names) (containments_free names') texts
  have closed : ∀ {k : Containment}, IsName k.node → ')' ∉ k.node.toList := fun name =>
    not_mem_name name (by decide)
  have equal := containments_inj (fun k h => closed (names k h)) (fun k h => closed (names' k h)) tails
  exact ⟨String.toList_inj.mp nodes, values, by rw [← has_eq, equal, has_eq],
    by rw [← hasNot_eq, equal, hasNot_eq]⟩

/-- A whole number as a double under an operator map, and a text that holds a quote and a bracket. -/
def spelled : AstQuery :=
  let one : Double := ⟨false, 4503599627370496, -52, by decide⟩
  { AstQuery.ofNode "Call" with
    attributes := [("args.length", .object [("ne", .null), ("eq", .number (.real one))]),
      ("name", .string "x\"]"), ("kind", .null)]
    has := ["Try"] }

/-- The same constraints, spelled otherwise. -/
def respelled : AstQuery :=
  { AstQuery.ofNode "Call" with
    attributes := [("args.length", .number (.integer 1 (by decide))), ("list", .array []),
      ("name", .object [("eq", .string "x\"]")])]
    has := ["Try"] }

theorem respelled_determined : IsPlain spelled ∧ IsPlain respelled ∧
    (∀ c ∈ constraints spelled, ¬ c.scalar.Breaks) ∧
    (∀ c ∈ constraints respelled, ¬ c.scalar.Breaks) ∧ estree spelled = estree respelled ∧
    spelled.node = respelled.node ∧
    (constraints spelled).map Constraint.value = (constraints respelled).map Constraint.value ∧
    spelled.has = respelled.has ∧ spelled.hasNot = respelled.hasNot := by
  have plain : IsPlain spelled := by decide
  have plain' : IsPlain respelled := by decide
  have whole : ∀ c ∈ constraints spelled, ¬ c.scalar.Breaks := by decide
  have whole' : ∀ c ∈ constraints respelled, ¬ c.scalar.Breaks := by decide
  have same : estree spelled = estree respelled := by decide +kernel
  exact ⟨plain, plain', whole, whole', same, selector_determines plain plain' whole whole' same⟩

/-- A text may spell out the constraint behind it: two constraints on texts read as one. -/
theorem estree_merged (query : AstQuery) (before after : Fields) (key key' s s' : String) :
    estree { query with attributes :=
      before ++ (key, .string (s ++ "\"][" ++ key' ++ "=\"" ++ s')) :: after } =
    estree { query with attributes :=
      before ++ (key, .string s) :: (key', .string s') :: after } := by
  simp [estree_eq, constraints, containments, Constraint.of?, Scalar.of?, Constraint.estree,
    Scalar.estree, ← String.toList_inj]

def onAttributes (attributes : Fields) : AstQuery :=
  { AstQuery.ofNode "A" with attributes }

/-- A constraint on one attribute has the selector of constraints on two. -/
theorem selector_breaks :
    let merged := onAttributes [("b", .string "x\"][c=\"y")]
    let apart := onAttributes [("b", .string "x"), ("c", .string "y")]
    IsPlain merged ∧ IsPlain apart ∧ estree merged = estree apart ∧
      (constraints merged).map Constraint.value ≠ (constraints apart).map Constraint.value := by
  refine ⟨by decide, by decide, ?_, fun same => ?_⟩
  · exact estree_merged (AstQuery.ofNode "A") [] [] "b" "c" "x" "y"
  · exact absurd (congrArg List.length same) (by decide)

end Query
end PolicyLint
