import PolicyLint.Query
import PolicyLint.Json.Printer
/-!
Queries as XPath expressions over Java trees: the node type, a predicate for each attribute with a
plain name and a literal value, then what the node must not and must contain.
-/
namespace PolicyLint.Query

def isAttributeName (key : String) : Bool :=
  key ≠ "" && key.toList.all fun c => Text.isAsciiAlphanum c || c = '_'

/-- A text between apostrophes, with those inside written twice. -/
def apostrophed (s : String) : List Char :=
  s.toList.flatMap fun c => if c = '\x27' then ['\x27', '\x27'] else [c]

/-- Whole numbers are written as integers of 64 bits. -/
def literalNumber : Number → String
  | .integer i _ => toString (Number.clamp i)
  | .real d => if d.isIntegral then toString (Number.clamp d.truncate) else Numeric.scientificText d

/-- The literal for a value; none for one that has no literal. An operator map counts by its
`eq`. -/
def literal? : Json → Option String
  | .bool b => some (if b then "true()" else "false()")
  | .number n => some (literalNumber n)
  | .string s => some (String.ofList ('\x27' :: apostrophed s ++ ['\x27']))
  | .object members => eqOf members
  | .array _ | .null => none
where
  eqOf : List (String × Json) → Option String
    | [] => none
    | (k, v) :: rest => if k = "eq" then literal? v else eqOf rest

def predicate? (entry : String × Json) : Option String :=
  if isAttributeName entry.1 then
    (literal? entry.2).map fun l => "[@" ++ entry.1 ++ " = " ++ l ++ "]"
  else none

def xpath (query : AstQuery) : String :=
  String.join (["//", query.node] ++ query.attributes.filterMap predicate? ++
    query.has.map (fun x => "[not(.//" ++ x ++ ")]") ++ query.hasNot.map (fun x => "[.//" ++ x ++ "]"))

end PolicyLint.Query
