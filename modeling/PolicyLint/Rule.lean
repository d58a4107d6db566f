import PolicyLint.Check
import PolicyLint.Failure
import PolicyLint.Violation
/-!
Rules and policies, their JSON form, and how they are read. A policy with a malformed check still
reads: the fault belongs to the rule and shows when the rule is evaluated.
-/
namespace PolicyLint

/-- How a rule's violations may be mended. -/
structure Remedy where
  autofix : Bool
  tool : Option String
  config : Fields

structure Rule where
  id : String
  enabled : Bool
  category : String
  severity : Severity
  desc : Option String
  selector : Option Selector
  check : Payload
  remedy : Option Remedy
  customMessage : Option String

structure Policy where
  version : String
  rules : List Rule

open Document

namespace Remedy

def toJson (r : Remedy) : Json :=
  .object ([("autofix", .bool r.autofix)] ++ optionMember "tool" (r.tool.map .string) ++
    mapMember "config" r.config)

def record : Record Remedy :=
  Remedy.mk <$> Record.takes "autofix" bool false <*> Record.may "tool" string <*>
    Record.takes "config" fields []

def decoder : Decoder Remedy :=
  record.decoder "Remedy"

end Remedy

namespace Rule

def toJson (r : Rule) : Json :=
  .object ([("id", .string r.id), ("enabled", .bool r.enabled), ("category", .string r.category),
      ("severity", .string r.severity.word)] ++
    optionMember "desc" (r.desc.map .string) ++
    optionMember "when" (r.selector.map Selector.toJson) ++
    [("check", r.check.toJson)] ++
    optionMember "remedy" (r.remedy.map Remedy.toJson) ++
    optionMember "message" (r.customMessage.map .string))

def record : Record Rule :=
  Rule.mk <$> Record.needs "id" string <*> Record.takes "enabled" bool true <*>
    Record.takes "category" string "" <*> Record.takes "severity" Severity.decoder .error <*>
    Record.may "desc" string <*> Record.may "when" Selector.decoder <*>
    Record.takes "check" Payload.decoder Payload.empty <*> Record.may "remedy" Remedy.decoder <*>
    Record.may "message" string

def decoder : Decoder Rule :=
  record.decoder "Rule"

def engine (r : Rule) : String :=
  r.check.engine

/-- The reading of the check, with its fault laid to the rule. -/
def spec (r : Rule) : Except Failure CheckSpec :=
  (CheckSpec.parse r.check).mapError fun fault => .config r.id fault.message

/-- The rule's own message, when it is not empty. -/
def message? (r : Rule) : Option String :=
  r.customMessage.filter (· ≠ "")

end Rule

namespace Policy

def toJson (p : Policy) : Json :=
  .object [("version", .string p.version), ("rules", .array (p.rules.map Rule.toJson))]

def record : Record Policy :=
  Policy.mk <$> Record.takes "version" string "" <*> Record.takes "rules" (list Rule.decoder) []

def decoder : Decoder Policy :=
  record.decoder "Policy"

def rule? (p : Policy) (id : String) : Option Rule :=
  p.rules.find? fun r => r.id == id

end Policy
end PolicyLint
