import PolicyLint.Proofs.Evaluation.Overdue
import PolicyLint.Proofs.Failure.Layer
import PolicyLint.Proofs.Tool.Enforcement
/-!
What the built-in tools fail with. Reading a rule and an output, looking for a tool, installing and running
it: each of these steps may fail, and every failure is its own cause. Main statement: a built-in adapter
fails with nothing else.
-/
namespace PolicyLint

open PolicyLint.Action

theorem Rule.Settles.failsOnly {rule : Rule} {Good : α → Prop} {answer : Except Failure α}
    (settled : rule.Settles Good answer) : FailsOnly Failure.Bare answer := by
  rintro failure rfl
  obtain ⟨message, rfl⟩ := settled
  rfl

/-! ### Tools -/

namespace Tool

theorem Eslint.config_fails (rule : Rule) : FailsOnly Failure.Bare (Eslint.config rule) := by
  refine FailsOnly.map (FailsOnly.bind rule.spec_settles.failsOnly fun spec => ?_) _
  cases spec with
  | pattern check => exact (patternRules_settles rule check).failsOnly
  | length check => exact (lengthRules_settles rule check).failsOnly
  | style check => exact failsOnly_ok _
  | ast query => exact failsOnly_ok _
  | typechecker | custom => exact failsOnly_error rfl

theorem Prettier.config_fails (rule : Rule) : FailsOnly Failure.Bare (Prettier.config rule) := by
  refine FailsOnly.bind rule.spec_settles.failsOnly fun spec => ?_
  cases spec with
  | style style => exact failsOnly_ok _
  | length check =>
    dsimp only
    split
    · exact failsOnly_ok _
    · exact failsOnly_error rfl
  | pattern | ast | typechecker | custom => exact failsOnly_error rfl

theorem Tsc.config_fails (rule : Rule) : FailsOnly Failure.Bare (Tsc.config rule) := by
  refine FailsOnly.bind rule.spec_settles.failsOnly fun spec => ?_
  cases spec with
  | typechecker check => exact failsOnly_ok _
  | pattern | length | style | ast | custom => exact failsOnly_error rfl

theorem Checkstyle.config_fails (rule : Rule) : FailsOnly Failure.Bare (Checkstyle.config rule) := by
  refine FailsOnly.map (FailsOnly.bind rule.spec_settles.failsOnly fun spec => ?_) _
  cases spec with
  | pattern | length | style => exact failsOnly_ok _
  | ast | typechecker | custom => exact failsOnly_error rfl

theorem Pmd.config_fails (rule : Rule) : FailsOnly Failure.Bare (Pmd.config rule) :=
  (rulesFor_settles rule).failsOnly.map _

theorem Tsc.withFiles_fails (config : String) (files : List String) :
    FailsOnly Failure.Bare (Tsc.withFiles config files) := by
  unfold Tsc.withFiles
  split
  · exact failsOnly_error rfl
  · exact failsOnly_ok _
  · exact failsOnly_error rfl

theorem Eslint.parse_fails (output : Output) : FailsOnly Failure.Bare (Eslint.parse output) := by
  unfold Eslint.parse
  dsimp only
  split
  · exact failsOnly_ok _
  · split
    · exact failsOnly_ok _
    · exact failsOnly_error rfl

theorem Tsc.parse_fails (output : Output) : FailsOnly Failure.Bare (Tsc.parse output) := by
  unfold Tsc.parse
  dsimp only
  split
  · exact failsOnly_error rfl
  · exact failsOnly_ok _

theorem Checkstyle.parse_fails (output : Output) : FailsOnly Failure.Bare (Checkstyle.parse output) := by
  unfold Checkstyle.parse
  dsimp only
  split
  · split
    · exact failsOnly_ok _
    · exact failsOnly_error rfl
  · split
    · exact failsOnly_error rfl
    · split
      · exact failsOnly_ok _
      · exact failsOnly_error rfl

theorem Pmd.parse_fails (output : Output) : FailsOnly Failure.Bare (Pmd.parse output) := by
  unfold Pmd.parse
  dsimp only
  split
  · split
    · exact failsOnly_ok _
    · exact failsOnly_error rfl
  · split
    · exact failsOnly_error rfl
    · split
      · exact failsOnly_ok _
      · exact failsOnly_error rfl

end Tool

theorem Executor.execute_fails (executor : Executor) (context : Context) (program : String)
    (arguments : List String) : Fails Failure.Bare (executor.execute context program arguments) := by
  refine (fails_always _).bind fun now => ?_
  refine (fails_ofExcept ?_).bind fun _ => fails_get fun host => ?_
  · unfold Context.check
    split
    · exact failsOnly_error rfl
    · split
      · exact failsOnly_error rfl
      · exact failsOnly_ok _
  · split
    · exact fails_fail rfl
    · intro host'
      refine FailsOnly.map ?_ _
      unfold Watch.outcome
      split
      · exact failsOnly_ok _
      all_goals exact failsOnly_error rfl

namespace Toolbox

variable (box : Toolbox) (context : Context)

theorem fails_orIo (result : Except OsError α) : Fails Failure.Bare (orIo result) :=
  fails_ofExcept (failsOnly_mapError fun _ => rfl)

theorem installPackage_fails (executor : Executor) (directory package version : String) :
    Fails Failure.Bare (installPackage executor context directory package version) := by
  have npm_fails (npm : String) : Fails Failure.Bare (do
      let output ← executor.execute { context with directory := some directory } npm
        ["install", package ++ "@" ++ version]
      if output.exitCode ≠ 0 then fail (failedRun "npm" output)) :=
    (executor.execute_fails _ _ _).bind fun output => fails_guard _ rfl
  refine fails_get fun host => (fails_orIo _).bind fun tree => fails_set _ fun _ => ?_
  split
  · exact fails_fail rfl
  · dsimp only
    split
    · exact (fails_orIo _).bind fun tree => fails_set _ fun _ => npm_fails _
    · exact npm_fails _

theorem java_fails : Fails Failure.Bare java := by
  refine fails_get fun host => ?_
  split
  · exact fails_pure _
  · exact fails_fail rfl

theorem accepted_fails (tool : String) (accepts : Int → Bool) (output : Output) :
    Fails Failure.Bare (accepted tool accepts output) := by
  unfold accepted
  split
  · exact fails_pure output
  · exact fails_fail rfl

end Toolbox

/-! ### Adapters -/

/-- An adapter that has failures of one kind only, whatever it is asked to do. -/
structure Adapter.Fails (kind : Failure → Prop) (context : Context) (adapter : Adapter W) : Prop where
  check : Action.Fails kind (adapter.check context)
  install : ∀ request, Action.Fails kind (adapter.install context request)
  configure : ∀ rule, Action.Fails kind (adapter.configure rule)
  execute : ∀ config files, Action.Fails kind (adapter.execute context config files)
  parse : ∀ output, Action.Fails kind (adapter.parse output)

def AdapterRegistry.Fails (kind : Failure → Prop) (context : Context) (registry : AdapterRegistry W) :
    Prop :=
  ∀ adapter ∈ registry.adapters, adapter.Fails kind context

theorem Adapter.Fails.mono {kind other : Failure → Prop} {context : Context} {adapter : Adapter W}
    (fails : adapter.Fails kind context) (implies : ∀ failure, kind failure → other failure) :
    adapter.Fails other context where
  check := fails.check.mono implies
  install request := (fails.install request).mono implies
  configure rule := (fails.configure rule).mono implies
  execute config files := (fails.execute config files).mono implies
  parse output := (fails.parse output).mono implies

namespace Toolbox

variable (box : Toolbox) (context : Context)

theorem checkPackaged_fails (name : String) : Fails Failure.Bare (box.checkPackaged name context) :=
  fails_get fun _ => fails_guard _ rfl

theorem checkCheckstyle_fails : Fails Failure.Bare (box.checkCheckstyle context) :=
  java_fails.bind fun _ => fails_get fun _ => fails_guard _ rfl

theorem installCheckstyle_fails (request : InstallRequest) :
    Fails Failure.Bare (box.installCheckstyle context request) :=
  fails_get fun _ => fails_guard _ rfl

theorem checkPmd_fails : Fails Failure.Bare (box.checkPmd context) :=
  fails_get fun _ => fails_guard _ rfl

theorem installPmd_fails (request : InstallRequest) :
    Fails Failure.Bare (box.installPmd context request) :=
  fails_get fun _ => fails_guard _ rfl

variable (config : String) (files : List String)

theorem runEslint_fails : Fails Failure.Bare (box.runEslint context config files) := by
  unfold runEslint
  split
  · exact fails_pure _
  · refine Fails.withConfig (fun path => fails_get fun host => ?_) (fun _ => rfl) _ _ _ _
    exact (Executor.execute_fails _ _ _ _).bind fun output => accepted_fails _ _ output

theorem runPrettier_fails (mode : Tool.Prettier.Mode) :
    Fails Failure.Bare (box.runPrettier mode context config files) := by
  unfold runPrettier
  split
  · exact fails_pure _
  · refine Fails.withConfig (fun path => fails_get fun host => ?_) (fun _ => rfl) _ _ _ _
    exact (Executor.execute_fails _ _ _ _).bind fun output => accepted_fails _ _ output

theorem runTsc_fails : Fails Failure.Bare (box.runTsc context config files) := by
  unfold runTsc
  split
  · exact fails_pure _
  · refine (fails_ofExcept (Tool.Tsc.withFiles_fails config files)).bind fun content => ?_
    refine Fails.withConfig (fun path => fails_get fun host => ?_) (fun _ => rfl) _ _ _ _
    exact Executor.execute_fails _ _ _ _

theorem runCheckstyle_fails : Fails Failure.Bare (box.runCheckstyle context config files) := by
  unfold runCheckstyle
  split
  · exact fails_pure _
  · refine java_fails.bind fun java => ?_
    exact Fails.withConfig (fun path => Executor.execute_fails _ _ _ _) (fun _ => rfl) _ _ _ _

theorem runPmd_fails : Fails Failure.Bare (box.runPmd context config files) := by
  unfold runPmd
  split
  · exact fails_pure _
  · refine fails_get fun host => ?_
    split
    · exact fails_fail rfl
    · refine Fails.withConfig (fun path => ?_) (fun _ => rfl) _ _ _ _
      exact (Executor.execute_fails _ _ _ _).bind fun output => accepted_fails _ _ output

end Toolbox

theorem Adapter.IsBuiltin.fails {adapter : Adapter Host} (builtin : adapter.IsBuiltin)
    (context : Context) : adapter.Fails Failure.Bare context := by
  obtain ⟨box, member⟩ := builtin
  rcases Toolbox.mem_adapters member with rfl | rfl | rfl | rfl | rfl
  · exact {
      check := box.checkPackaged_fails context _
      install := fun _ => Toolbox.installPackage_fails context _ _ _ _
      configure := fun rule => fails_ofExcept ((Tool.Eslint.config_fails rule).map _)
      execute := box.runEslint_fails context
      parse := fun output => fails_ofExcept (Tool.Eslint.parse_fails output) }
  · exact {
      check := box.checkPackaged_fails context _
      install := fun _ => Toolbox.installPackage_fails context _ _ _ _
      configure := fun rule => fails_ofExcept ((Tool.Prettier.config_fails rule).map _)
      execute := fun config files => box.runPrettier_fails context config files _
      parse := fun _ => fails_ofExcept (failsOnly_ok _) }
  · exact {
      check := box.checkPackaged_fails context _
      install := fun _ => Toolbox.installPackage_fails context _ _ _ _
      configure := fun rule => fails_ofExcept ((Tool.Tsc.config_fails rule).map _)
      execute := box.runTsc_fails context
      parse := fun output => fails_ofExcept (Tool.Tsc.parse_fails output) }
  · exact {
      check := box.checkCheckstyle_fails context
      install := box.installCheckstyle_fails context
      configure := fun rule => fails_ofExcept (Tool.Checkstyle.config_fails rule)
      execute := box.runCheckstyle_fails context
      parse := fun output => fails_ofExcept (Tool.Checkstyle.parse_fails output) }
  · exact {
      check := box.checkPmd_fails context
      install := box.installPmd_fails context
      configure := fun rule => fails_ofExcept (Tool.Pmd.config_fails rule)
      execute := box.runPmd_fails context
      parse := fun output => fails_ofExcept (Tool.Pmd.parse_fails output) }

end PolicyLint
