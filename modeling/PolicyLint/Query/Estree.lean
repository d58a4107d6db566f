import PolicyLint.Query
import PolicyLint.Numeric.Shortest
/-!
Queries as selectors over ESTree: the node type, an attribute in brackets for each value that can be
compared, then what the node must not and must contain.
-/
namespace PolicyLint.Query

/-- Whole numbers are written without a fraction up to `10 ^ 21`. -/
def plainNumber : Number → String
  | .integer i _ => toString i
  | .real d =>
    if d.isIntegral ∧ d.magnitudeBelow (Nat.pow 10 21) then toString d.truncate else Numeric.plainText d

/-- The attribute with its value; none for a value that no selector can compare. An operator map
counts by its `eq`. -/
def attribute? (key : String) : Json → Option String
  | .bool b => some s!"[{key}={b}]"
  | .string s => some ("[" ++ key ++ "=\"" ++ s ++ "\"]")
  | .number n => some s!"[{key}={plainNumber n}]"
  | .object members => eqOf members
  | .array _ | .null => none
where
  eqOf : List (String × Json) → Option String
    | [] => none
    | (k, v) :: rest => if k = "eq" then attribute? key v else eqOf rest

/-- What a node should have reads as "lacks it", what it should not have as "contains it". -/
def estree (query : AstQuery) : String :=
  String.join ([query.node] ++ query.attributes.filterMap (fun a => attribute? a.1 a.2) ++
    query.has.map (fun x => ":not(:has(" ++ x ++ "))") ++
    query.hasNot.map (fun x => ":has(" ++ x ++ ")"))

end PolicyLint.Query
