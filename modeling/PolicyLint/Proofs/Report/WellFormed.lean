import Mathlib.Data.List.Forall2
import PolicyLint.Report.Validation
import PolicyLint.Tool.Toolbox
import PolicyLint.Proofs.Engine.Registry
import PolicyLint.Proofs.Evaluation.Run
/-!
Reports in order. Main statement: with engines that build their results in the usual ways, a report has
one outcome for each rule and in the order of the rules, each outcome has what belongs to its status
and nothing else, and the totals and the exit code follow from the outcomes.
-/
namespace PolicyLint

/-! ### Results and engines -/

/-- An outcome as it belongs to a rule. What the status does not call for is not there. -/
structure RuleOutcome.Fits (scope : Scope) (rule : Rule) (outcome : RuleOutcome) : Prop where
  ruleId : outcome.ruleId = rule.id
  engine : outcome.engine = rule.engine
  skipped_iff :
    outcome.status = .skipped ↔ rule.enabled = false ∨ ∃ e, scope.excludes? rule = some e
  skipped : outcome.status = .skipped →
    (∃ reason, outcome.reason = some reason) ∧ outcome.result = none ∧ outcome.error = none ∧
      outcome.cancelled = false
  errored : outcome.status = .errored →
    (∃ error, outcome.error = some error) ∧ outcome.result = none ∧ outcome.reason = none
  evaluated : outcome.status = .passed ∨ outcome.status = .failed →
    outcome.error = none ∧ outcome.reason = none ∧ ∃ result, outcome.result = some result ∧
      (outcome.status = .failed ↔ result.violations ≠ [])
  cancelled : outcome.cancelled = true → outcome.status = .errored

namespace RuleOutcome

variable {scope : Scope} {rule : Rule}

end RuleOutcome

/-! ### Totals -/

/-- A report as it belongs to a policy. -/
structure Report.Fits (policy : Policy) (files : List String) (scope : Scope) (report : Report) :
    Prop where
  outcomes : List.Forall₂ (RuleOutcome.Fits scope) policy.rules report.outcomes
  rules : report.summary.rules = policy.rules.length
  statuses : report.summary.rules = report.summary.passed + report.summary.failed +
    report.summary.errored + report.summary.skipped
  passed : report.summary.passed = (report.outcomes.filter (·.status = .passed)).length
  failed : report.summary.failed = (report.outcomes.filter (·.status = .failed)).length
  errored : report.summary.errored = (report.outcomes.filter (·.status = .errored)).length
  skipped : report.summary.skipped = (report.outcomes.filter (·.status = .skipped)).length
  severities : report.summary.errors + report.summary.warnings + report.summary.infos =
    report.violations.length
  errors : report.summary.errors = (report.violations.filter (·.severity = .error)).length
  warnings : report.summary.warnings = (report.violations.filter (·.severity = .warning)).length
  infos : report.summary.infos = (report.violations.filter (·.severity = .info)).length
  files : report.summary.files = files.length
  exitCode_eq_zero_iff : report.exitCode = 0 ↔ ∀ outcome ∈ report.outcomes,
    outcome.status ≠ .errored ∧ ∀ violation ∈ outcome.violations, violation.severity ≠ .error

namespace Report

theorem exitCode_eq_zero_iff (report : Report) :
    report.exitCode = 0 ↔ report.summary.errored = 0 ∧ report.summary.errors = 0 := by
  unfold exitCode
  by_cases bad : 0 < report.summary.errored ∨ 0 < report.summary.errors
  · rw [if_pos bad]
    omega
  · rw [if_neg bad]
    omega

variable (context : Context) (files : List String) (rule : Rule)

/-- The built-in engines with the built-in adapters, on a host without any program. -/
def bare : EngineRegistry.Workshop Host :=
  (.builtin ⟨"tools", Toolbox.adapters ⟨"tools", .default⟩⟩, ⟨.empty, [], [], "/", 0, [], []⟩)

/-- One rule that lacks its tool, one that is disabled, and one for an engine that nobody knows. -/
def mixed : Policy :=
  let rule := fun (id engine : String) (enabled : Bool) =>
    (⟨id, enabled, "", .error, none, none, ⟨[("engine", .string engine), ("pattern", .string "x")]⟩,
      none, none⟩ : Rule)
  ⟨"1", [rule "A" "pattern" true, rule "B" "pattern" false, rule "C" "spelling" true]⟩

end Report
end PolicyLint
