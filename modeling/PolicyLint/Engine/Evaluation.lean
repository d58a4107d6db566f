import PolicyLint.Engine.Basic
/-!
The evaluation of one rule by way of an adapter: select the files, find the adapter, see that its tool
is there, configure it, run it, and read its findings. The first step that fails ends the evaluation;
a rule that no file concerns passes before any of them.
-/
namespace PolicyLint

/-- An engine's access to the adapters of a category; there is none before the engine is
initialised. -/
structure Evaluator (W : Type) where
  engine : String
  category : String
  adapters : Option (AdapterRegistry W)
  install : InstallRequest

namespace Evaluator

/-- A tool that is missing is installed once. The second look comes before the installation because
another evaluation may have installed the tool in the meantime. -/
def ensureAvailable (context : Context) (adapter : Adapter W) (install : InstallRequest) :
    Action W Unit := do
  let isThere ← (adapter.check context).outcome
  if isThere.isOk then return
  let isThereNow ← (adapter.check context).outcome
  if isThereNow.isOk then return
  let wrapped := fun (step : Action W Unit) =>
    ExceptT.adapt (Failure.installFailed adapter.name) step
  wrapped (adapter.install context install)
  wrapped (adapter.check context)

/-- A finding as a violation of the rule: its message unless the rule has its own, and the tool's
severity unless its word is unknown. The tool's own words stay in the context. -/
def violation (rule : Rule) (tool : String) (suggestion : Option Suggestion) (finding : Finding) :
    Violation where
  file := finding.file
  line := finding.line
  column := finding.column
  endLine := finding.endLine
  endColumn := finding.endColumn
  message := rule.message?.getD finding.message
  severity := (Severity.ofTool? finding.severity).getD rule.severity
  ruleId := rule.id
  category := rule.category
  suggestion := suggestion
  context := [("tool", .string tool)] ++ textMember "toolRule" finding.ruleId ++
    textMember "toolSeverity" finding.severity

/-- The adapter for a rule: the pinned one, else the first for the language. -/
def adapterFor (evaluator : Evaluator W) (rule : Rule) (language : String)
    (pinned : Option String) : Except Failure (Adapter W) := do
  match evaluator.adapters with
  | none => .error (.engineNotInitialized evaluator.engine)
  | some adapters =>
    let _ ← rule.spec
    if rule.engine ≠ evaluator.engine then
      .error (.config rule.id s!"check targets engine '{rule.engine}', not '{evaluator.engine}'")
    else
      match pinned with
      | some name => adapters.get name
      | none => adapters.find language evaluator.category

/-- What the adapter finds in the files. -/
def findings (context : Context) (adapter : Adapter W) (install : InstallRequest) (rule : Rule)
    (files : List String) : Action W (List Finding) := do
  ensureAvailable context adapter install
  let config ← adapter.configure rule
  let output ← adapter.execute context config files
  adapter.parse output

def run [Clock W] (evaluator : Evaluator W) (context : Context) (rule : Rule) (files : List String)
    (pinned : Option String) (suggestion : Option Suggestion) : Action W RuleResult := do
  let started ← Action.always Clock.read
  let files := Selector.keep rule.selector files
  if files.isEmpty then return RuleResult.trivial rule.id evaluator.engine
  let language := Selector.language rule.selector files
  let adapter ← Action.ofExcept (evaluator.adapterFor rule language pinned)
  let found ← findings context adapter evaluator.install rule files
  let ended ← Action.always Clock.read
  return RuleResult.ofViolations rule.id evaluator.engine language
    (found.map (violation rule adapter.name suggestion)) (ended - started)

end Evaluator
end PolicyLint
