import PolicyLint.Engine.Registry
import PolicyLint.Scope
/-!
Reports: the outcome of every rule of a policy, in the order of the policy, and their totals. A rule
that fails to be evaluated leaves an outcome of its own and the other rules alone.
-/
namespace PolicyLint

inductive Status where
  | passed | failed | errored | skipped
deriving DecidableEq, Repr

def Status.word : Status → String
  | .passed => "passed"
  | .failed => "failed"
  | .errored => "errored"
  | .skipped => "skipped"

structure RuleOutcome where
  ruleId : String
  engine : String
  status : Status
  result : Option RuleResult
  error : Option String
  cancelled : Bool
  reason : Option String

namespace RuleOutcome

def skipped (rule : Rule) (exclusion : Exclusion) : RuleOutcome :=
  ⟨rule.id, rule.engine, .skipped, none, none, false, some exclusion.message⟩

/-- The outcome of a rule that was evaluated. -/
def ofResult (rule : Rule) : Except Failure RuleResult → RuleOutcome
  | .ok result =>
    ⟨rule.id, rule.engine, if result.passed then .passed else .failed, some result, none, false, none⟩
  | .error failure =>
    ⟨rule.id, rule.engine, .errored, none, some failure.message, failure.isCancellation, none⟩

def violations (outcome : RuleOutcome) : List Violation :=
  (outcome.result.map RuleResult.violations).getD []

def toJson (o : RuleOutcome) : Json :=
  .object ([("ruleId", .string o.ruleId), ("engine", .string o.engine),
      ("status", .string o.status.word)] ++
    optionMember "result" (o.result.map RuleResult.toJson) ++
    optionMember "error" (o.error.map .string) ++
    (if o.cancelled then [("cancelled", .bool true)] else []) ++
    optionMember "reason" (o.reason.map .string))

end RuleOutcome

structure Summary where
  rules : Nat
  passed : Nat
  failed : Nat
  errored : Nat
  skipped : Nat
  errors : Nat
  warnings : Nat
  infos : Nat
  files : Nat
deriving DecidableEq, Repr

namespace Summary

def of (outcomes : List RuleOutcome) (files : Nat) : Summary :=
  let withStatus := fun (status : Status) => outcomes.countP fun o => o.status = status
  let violations := outcomes.flatMap RuleOutcome.violations
  let withSeverity := fun (severity : Severity) => violations.countP fun v => v.severity = severity
  { rules := outcomes.length
    passed := withStatus .passed
    failed := withStatus .failed
    errored := withStatus .errored
    skipped := withStatus .skipped
    errors := withSeverity .error
    warnings := withSeverity .warning
    infos := withSeverity .info
    files }

/-- The totals with their names. -/
def entries (s : Summary) : List (String × Nat) :=
  [("rules", s.rules), ("passed", s.passed), ("failed", s.failed), ("errored", s.errored),
    ("skipped", s.skipped), ("errors", s.errors), ("warnings", s.warnings), ("infos", s.infos),
    ("files", s.files)]

end Summary

structure Report where
  outcomes : List RuleOutcome
  summary : Summary

namespace Report

def of (outcomes : List RuleOutcome) (files : Nat) : Report :=
  ⟨outcomes, Summary.of outcomes files⟩

/-- Zero when every rule could be evaluated and no violation is an error. -/
def exitCode (report : Report) : Nat :=
  if 0 < report.summary.errored ∨ 0 < report.summary.errors then 1 else 0

def violations (report : Report) : List Violation :=
  report.outcomes.flatMap RuleOutcome.violations

def toJson (report : Report) : Json :=
  .object [("outcomes", .array (report.outcomes.map RuleOutcome.toJson)),
    ("summary", .object (report.summary.entries.map fun e => (e.1, Json.ofNat e.2)))]

end Report
end PolicyLint
