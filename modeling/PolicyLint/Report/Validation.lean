import PolicyLint.Report.Basic
/-!
The validation of files against a policy: rule after rule, each by the engine that its check names.
-/
namespace PolicyLint.Report

open EngineRegistry

/-- The result of one rule, by its engine. -/
def evaluate (context : Context) (rule : Rule) (files : List String) :
    Action (Workshop W) RuleResult := do
  let inst ← get rule.engine
  inWorld (inst.engine.validate context rule files)

/-- Whether and why a rule is passed over. -/
def exclusion? (scope : Scope) (rule : Rule) : Option Exclusion :=
  if rule.enabled then scope.excludes? rule else some .disabled

/-- The outcome of one rule; no failure gets out of it. -/
def outcome (context : Context) (files : List String) (scope : Scope) (rule : Rule) :
    StateM (Workshop W) RuleOutcome :=
  fun state =>
    match exclusion? scope rule with
    | some exclusion => (RuleOutcome.skipped rule exclusion, state)
    | none =>
      let r := evaluate context rule files state
      (RuleOutcome.ofResult rule r.1, r.2)

/-- The outcomes of rules, in their order. -/
def runAll (context : Context) (files : List String) (scope : Scope) :
    List Rule → StateM (Workshop W) (List RuleOutcome)
  | [] => fun state => ([], state)
  | rule :: rest => fun state =>
    let first := outcome context files scope rule state
    let others := runAll context files scope rest first.2
    (first.1 :: others.1, others.2)

/-- Every rule of the policy, in order. -/
def validate (context : Context) (policy : Policy) (files : List String) (scope : Scope) :
    StateM (Workshop W) Report :=
  fun state =>
    let r := runAll context files scope policy.rules state
    (Report.of r.1 files.length, r.2)

end PolicyLint.Report
