import PolicyLint.Query.Estree
import PolicyLint.Query.XPath
/-!
What a query asks for: constraints on attributes, and what a node must lack or contain. Main statement:
the selector and the XPath expression carry the same constraints, in the same order, but for attributes
that have no name in XPath.
-/
namespace PolicyLint.Query

/-- A value that an attribute can be compared with. -/
inductive Scalar where
  | bool (value : Bool)
  | number (value : Number)
  | text (value : String)

/-- The scalar that a value comes down to, through any number of operator maps. -/
def Scalar.of? : Json → Option Scalar
  | .bool b => some (.bool b)
  | .number n => some (.number n)
  | .string s => some (.text s)
  | .object members => eqOf members
  | .array _ | .null => none
where
  eqOf : List (String × Json) → Option Scalar
    | [] => none
    | (k, v) :: rest => if k = "eq" then of? v else eqOf rest

structure Constraint where
  key : String
  scalar : Scalar

def Constraint.of? (entry : String × Json) : Option Constraint :=
  (Scalar.of? entry.2).map (⟨entry.1, ·⟩)

/-- What a match must not have below it, or must have. -/
inductive Containment where
  | lacks (node : String)
  | contains (node : String)

/-- The constraints of a query, one for each attribute whose value can be compared. -/
def constraints (query : AstQuery) : List Constraint :=
  query.attributes.filterMap Constraint.of?

/-- A match lacks what it should have, and contains what it should not. -/
def containments (query : AstQuery) : List Containment :=
  query.has.map .lacks ++ query.hasNot.map .contains

/-! ### As selectors -/

def Scalar.estree : Scalar → String
  | .bool b => toString b
  | .number n => plainNumber n
  | .text s => "\"" ++ s ++ "\""

def Constraint.estree (c : Constraint) : String :=
  "[" ++ c.key ++ "=" ++ c.scalar.estree ++ "]"

def Containment.estree : Containment → String
  | .lacks node => ":not(:has(" ++ node ++ "))"
  | .contains node => ":has(" ++ node ++ ")"

mutual

theorem attribute?_eq (key : String) :
    ∀ v : Json, attribute? key v = (Scalar.of? v).map fun s => (Constraint.mk key s).estree
  | .bool _ => rfl
  | .number _ => rfl
  | .string s => by
    simp [attribute?, Scalar.of?, Constraint.estree, Scalar.estree, ← String.toList_inj]
  | .object members => by
    rw [attribute?, Scalar.of?]
    exact attribute?_eqOf key members
  | .array _ => rfl
  | .null => rfl

theorem attribute?_eqOf (key : String) : ∀ members : List (String × Json),
    attribute?.eqOf key members =
      (Scalar.of?.eqOf members).map fun s => (Constraint.mk key s).estree
  | [] => rfl
  | (k, v) :: rest => by
    rw [attribute?.eqOf, Scalar.of?.eqOf]
    split
    · exact attribute?_eq key v
    · exact attribute?_eqOf key rest

end

theorem estree_eq (query : AstQuery) : estree query =
    String.join ([query.node] ++ (constraints query).map Constraint.estree ++
      (containments query).map Containment.estree) := by
  simp [estree, constraints, containments, attribute?_eq, List.map_filterMap, Constraint.of?,
    Containment.estree, Function.comp_def]

/-! ### As XPath -/

def Scalar.literal : Scalar → String
  | .bool b => if b then "true()" else "false()"
  | .number n => literalNumber n
  | .text s => String.ofList ('\x27' :: apostrophed s ++ ['\x27'])

def Constraint.xpath (c : Constraint) : String :=
  "[@" ++ c.key ++ " = " ++ c.scalar.literal ++ "]"

def Containment.xpath : Containment → String
  | .lacks node => "[not(.//" ++ node ++ ")]"
  | .contains node => "[.//" ++ node ++ "]"

mutual

theorem literal?_eq : ∀ v : Json, literal? v = (Scalar.of? v).map Scalar.literal
  | .bool _ => rfl
  | .number _ => rfl
  | .string _ => rfl
  | .object members => by
    rw [literal?, Scalar.of?]
    exact literal?_eqOf members
  | .array _ => rfl
  | .null => rfl

theorem literal?_eqOf : ∀ members : List (String × Json),
    literal?.eqOf members = (Scalar.of?.eqOf members).map Scalar.literal
  | [] => rfl
  | (k, v) :: rest => by
    rw [literal?.eqOf, Scalar.of?.eqOf]
    split
    · exact literal?_eq v
    · exact literal?_eqOf rest

end

theorem predicate?_eq (entry : String × Json) : predicate? entry =
    ((Constraint.of? entry).filter fun c => isAttributeName c.key).map Constraint.xpath := by
  rw [predicate?, literal?_eq, Constraint.of?]
  cases scalar : Scalar.of? entry.2 with
  | none => simp
  | some s =>
    by_cases named : isAttributeName entry.1 = true
    · simp [named, Option.filter_some, Constraint.xpath]
    · simp [named, Option.filter_some]

theorem isAttributeName_iff (key : String) : isAttributeName key = true ↔
    key ≠ "" ∧ ∀ c ∈ key.toList, Text.isAsciiAlphanum c = true ∨ c = '_' := by
  simp [isAttributeName]

theorem xpath_eq (query : AstQuery) : xpath query =
    String.join (["//", query.node] ++
      ((constraints query).filter fun c => isAttributeName c.key).map Constraint.xpath ++
      (containments query).map Containment.xpath) := by
  have predicates : query.attributes.filterMap predicate? =
      ((constraints query).filter fun c => isAttributeName c.key).map Constraint.xpath := by
    rw [constraints, List.filter_filterMap, List.map_filterMap]
    exact congrArg (List.filterMap · query.attributes) (funext predicate?_eq)
  simp [xpath, predicates, containments, Containment.xpath, Function.comp_def]

/-! ### Both -/

/-- A value can be compared in a selector exactly when it has a literal, and then both write the scalar
that it comes down to. The selector is the node with its constraints and containments; the expression is
the same, less the constraints on attributes that have no name in XPath. -/
theorem estree_xpath_agree (query : AstQuery) :
    (∀ key v, (attribute? key v).isSome = true ↔ (literal? v).isSome = true) ∧
    (∀ key v, attribute? key v = (Scalar.of? v).map fun s => (Constraint.mk key s).estree) ∧
    (∀ v, literal? v = (Scalar.of? v).map Scalar.literal) ∧
    (∀ key, isAttributeName key = true ↔
      key ≠ "" ∧ ∀ c ∈ key.toList, Text.isAsciiAlphanum c = true ∨ c = '_') ∧
    estree query = String.join ([query.node] ++ (constraints query).map Constraint.estree ++
      (containments query).map Containment.estree) ∧
    xpath query = String.join (["//", query.node] ++
      ((constraints query).filter fun c => isAttributeName c.key).map Constraint.xpath ++
      (containments query).map Containment.xpath) := by
  refine ⟨fun key v => ?_, attribute?_eq, literal?_eq, isAttributeName_iff, estree_eq query,
    xpath_eq query⟩
  rw [attribute?_eq, literal?_eq, Option.isSome_map, Option.isSome_map]

end PolicyLint.Query
