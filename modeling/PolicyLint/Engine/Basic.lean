import PolicyLint.AdapterRegistry
/-!
Engines: what evaluates the rules of one category, and the result of an evaluation.
-/
namespace PolicyLint

/-- A world with a clock. Reading it takes time, so that no two readings are equal. -/
class Clock (W : Type) where
  read : W → Nat × W

/-- A tool that an engine makes use of. -/
structure ToolRequirement where
  name : String
  version : String
  isOptional : Bool
  installCommand : String
deriving DecidableEq, Repr

def ToolRequirement.npm (package version : String) (isOptional : Bool) : ToolRequirement :=
  ⟨package, version, isOptional, "npm install -g " ++ package⟩

structure EngineCapabilities where
  name : String
  languages : List String
  categories : List String
  fixes : Bool
  compiles : Bool
  tools : List ToolRequirement
deriving DecidableEq, Repr

/-- The complete result of one rule. -/
structure RuleResult where
  ruleId : String
  passed : Bool
  violations : List Violation
  duration : Duration
  engine : String
  language : String

namespace RuleResult

/-- The result of a rule that has no files to look at. -/
def trivial (ruleId engine : String) : RuleResult :=
  ⟨ruleId, true, [], 0, engine, ""⟩

def ofViolations (ruleId engine language : String) (violations : List Violation)
    (duration : Duration) : RuleResult :=
  ⟨ruleId, violations.isEmpty, violations, duration, engine, language⟩

end RuleResult

structure Engine (W : Type) where
  capabilities : EngineCapabilities
  validate : Context → Rule → List String → Action W RuleResult
  close : Action W Unit

/-- What every engine is initialised with. -/
structure EngineConfig (W : Type) where
  toolsDir : String
  adapters : AdapterRegistry W

/-- What the engines of a configuration ask of an installation. -/
def EngineConfig.request (config : EngineConfig W) : InstallRequest :=
  ⟨config.toolsDir, none, false⟩

namespace ToolRequirement

def toJson (t : ToolRequirement) : Json :=
  .object [("name", .string t.name), ("version", .string t.version), ("optional", .bool t.isOptional),
    ("installCommand", .string t.installCommand)]

end ToolRequirement

def EngineCapabilities.toJson (c : EngineCapabilities) : Json :=
  .object [("name", .string c.name), ("supportedLanguages", Json.strings c.languages),
    ("supportedCategories", Json.strings c.categories), ("supportsAutofix", .bool c.fixes),
    ("requiresCompilation", .bool c.compiles),
    ("externalTools", .array (c.tools.map ToolRequirement.toJson))]

def RuleResult.toJson (r : RuleResult) : Json :=
  .object ([("ruleId", .string r.ruleId), ("passed", .bool r.passed),
      ("violations", .array (r.violations.map Violation.toJson)),
      ("duration", .string (Duration.text r.duration)), ("engine", .string r.engine)] ++
    textMember "language" r.language)

end PolicyLint
