import PolicyLint.Query
/-!
The check of a rule: an open map whose `engine` says how the rest is to be read. Reading never fails
on a single key: a missing key and a value of the wrong type both count as not given.
-/
namespace PolicyLint

/-- A naming pattern or forbidden content. -/
structure PatternCheck where
  target : String
  pattern : String
deriving DecidableEq, Repr

/-- Bounds on lines, files, functions or parameter lists; zero is no bound. -/
structure LengthCheck where
  scope : String
  max : Int
  min : Int
deriving DecidableEq, Repr

structure StyleCheck where
  indent : Int
  quote : Option String
  semi : Option Bool
  trailingComma : Option String
  printWidth : Int
  braceStyle : Option String
  spaceAfterKeyword : Bool
  spaceAroundOperators : Bool
  blankLinesBetweenMethods : Bool
  oneStatementPerLine : Bool
  /-- The adapter that the rule pins, whatever its language. -/
  tool : Option String
deriving DecidableEq, Repr

/-- Switches of a type checker. -/
structure TypeCheck where
  strict : Option Bool
  noImplicitAny : Option Bool
  strictNullChecks : Option Bool
  allowJs : Option Bool
  checkJs : Option Bool
  included : List String
  excluded : List String
deriving DecidableEq, Repr

/-- A check as its engine sees it; a name that is no built-in engine leaves the map as it is. -/
inductive CheckSpec where
  | pattern (check : PatternCheck)
  | length (check : LengthCheck)
  | style (check : StyleCheck)
  | ast (query : AstQuery)
  | typechecker (check : TypeCheck)
  | custom (engine : String)

inductive CheckFault where
  | noEngine | noPattern | noBounds | noNode
deriving DecidableEq, Repr

def CheckFault.message : CheckFault → String
  | .noEngine => "check payload has no 'engine'"
  | .noPattern => "pattern is required for pattern engine"
  | .noBounds => "max or min is required for length engine"
  | .noNode => AstQuery.noNode

namespace StyleCheck

def none : StyleCheck :=
  ⟨0, .none, .none, .none, 0, .none, false, false, false, false, .none⟩

def of (payload : Payload) : StyleCheck where
  indent := payload.int "indent"
  quote := payload.text? "quote"
  semi := payload.bool? "semi"
  trailingComma := payload.text? "trailingComma"
  printWidth := payload.int "printWidth"
  braceStyle := payload.text? "braceStyle"
  spaceAfterKeyword := payload.bool "spaceAfterKeyword"
  spaceAroundOperators := payload.bool "spaceAroundOperators"
  blankLinesBetweenMethods := payload.bool "blankLinesBetweenMethods"
  oneStatementPerLine := payload.bool "oneStatementPerLine"
  tool := payload.text? "tool"

end StyleCheck

def TypeCheck.of (payload : Payload) : TypeCheck where
  strict := payload.bool? "strict"
  noImplicitAny := payload.bool? "noImplicitAny"
  strictNullChecks := payload.bool? "strictNullChecks"
  allowJs := payload.bool? "allowJs"
  checkJs := payload.bool? "checkJs"
  included := payload.texts "include"
  excluded := payload.texts "exclude"

namespace CheckSpec

def patternOf (payload : Payload) : Except CheckFault CheckSpec :=
  let pattern := payload.text "pattern"
  if pattern = "" then .error .noPattern else .ok (.pattern ⟨payload.text "target", pattern⟩)

def lengthOf (payload : Payload) : Except CheckFault CheckSpec :=
  let max := payload.int "max"
  let min := payload.int "min"
  if max = 0 ∧ min = 0 then .error .noBounds else .ok (.length ⟨payload.text "scope", max, min⟩)

def astOf (payload : Payload) : Except CheckFault CheckSpec :=
  match AstQuery.parse? payload with
  | some query => .ok (.ast query)
  | none => .error .noNode

/-- The reading of a check, chosen by its engine. -/
def parse (payload : Payload) : Except CheckFault CheckSpec :=
  match payload.engine with
  | "" => .error .noEngine
  | "pattern" => patternOf payload
  | "length" => lengthOf payload
  | "style" => .ok (.style (StyleCheck.of payload))
  | "ast" => astOf payload
  | "typechecker" => .ok (.typechecker (TypeCheck.of payload))
  | engine => .ok (.custom engine)

end CheckSpec
end PolicyLint
