import PolicyLint.Proofs.Report.Independence
import PolicyLint.Proofs.Tool.Failing
/-!
Outcomes that are marked as cancelled. The built-in engines put no other layer around a failure of their
adapters than an installation. Main statement: an outcome of theirs is marked exactly when an interruption
is the root of its failure; the mark is missing only where an engine fails to be created.
-/
namespace PolicyLint

open Failure (AfterCreation)
open PolicyLint.Action

/-! ### Evaluations -/

namespace Evaluator

variable {context : Context} {adapter : Adapter W}

/-- An installation is the one layer that an evaluation puts around a failure. -/
theorem ensureAvailable_fails (fails : adapter.Fails AfterCreation context) (request : InstallRequest) :
    Fails AfterCreation (ensureAvailable context adapter request) := by
  have wraps : ∀ failure, AfterCreation failure → AfterCreation (.installFailed adapter.name failure) :=
    fun failure => (Failure.afterCreation_installFailed_iff adapter.name failure).mpr
  refine (fails_outcome _).bind fun first => ?_
  split
  · exact fails_pure ()
  refine (fails_outcome _).bind fun second => ?_
  split
  · exact fails_pure ()
  exact ((fails.install request).adapt wraps).bind fun _ => fails.check.adapt wraps

theorem findings_fails (fails : adapter.Fails AfterCreation context) (request : InstallRequest) (rule : Rule)
    (files : List String) : Fails AfterCreation (findings context adapter request rule files) := by
  refine (ensureAvailable_fails fails request).bind fun _ => ?_
  refine (fails.configure rule).bind fun config => ?_
  exact (fails.execute config files).bind fun output => fails.parse output

theorem adapterFor_fails (evaluator : Evaluator W) (rule : Rule) (language : String)
    (pinned : Option String) : FailsOnly Failure.Bare (evaluator.adapterFor rule language pinned) := by
  unfold adapterFor
  split
  · exact failsOnly_error rfl
  · refine FailsOnly.bind rule.spec_settles.failsOnly fun _ => ?_
    split
    · exact failsOnly_error rfl
    · split
      · unfold AdapterRegistry.get
        split
        · exact failsOnly_ok _
        · exact failsOnly_error rfl
      · unfold AdapterRegistry.find
        split
        · exact failsOnly_ok _
        · exact failsOnly_error rfl

theorem run_fails [Clock W] (evaluator : Evaluator W)
    (fails : ∀ registry ∈ evaluator.adapters, registry.Fails AfterCreation context)
    (rule : Rule) (files : List String) (pinned : Option String) (suggestion : Option Suggestion) :
    Fails AfterCreation (evaluator.run context rule files pinned suggestion) := by
  intro w
  rw [run_apply]
  dsimp only
  split
  · exact failsOnly_ok _
  cases found : evaluator.adapterFor rule (Selector.language rule.selector
      (Selector.keep rule.selector files)) pinned with
  | error failure =>
    have bare : failure.Bare := evaluator.adapterFor_fails _ _ _ failure found
    exact failsOnly_error bare.afterCreation
  | ok adapter =>
    cases given : evaluator.adapters with
    | none => simp [adapterFor, given] at found
    | some registry =>
      have made := findings_fails (fails registry given adapter (adapterFor_mem found given))
        evaluator.install rule (Selector.keep rule.selector files) (Clock.read w).2
      dsimp only
      rcases ran : findings context adapter evaluator.install rule (Selector.keep rule.selector files)
        (Clock.read w).2 with ⟨failure | list, after⟩
      · rw [ran] at made
        exact failsOnly_error (made failure rfl)
      · exact failsOnly_ok _

end Evaluator

/-! ### Outcomes -/

namespace Report

open EngineRegistry

/-- The mark of a rule that could not be evaluated, whatever the engines. -/
theorem outcome_marked {context : Context} {files : List String} {scope : Scope} {rule : Rule}
    {state : Workshop W} {failure : Failure} (included : exclusion? scope rule = none)
    (failed : (evaluate context rule files state).1 = .error failure) :
    let marked := (outcome context files scope rule state).1
    marked.status = .errored ∧ marked.error = some failure.message ∧
      (marked.cancelled = true ↔ failure.root.IsInterruption ∧ failure.AfterCreation) := by
  simp only [outcome, included, failed]
  exact ⟨rfl, rfl, failure.isCancellation_iff⟩

/-- An outcome is errored where an evaluation fails, and nowhere else. -/
theorem evaluated_of_errored {context : Context} {files : List String} {scope : Scope} {rule : Rule}
    {state : Workshop W} (errored : (outcome context files scope rule state).1.status = .errored) :
    exclusion? scope rule = none ∧
      ∃ failure, (evaluate context rule files state).1 = .error failure := by
  unfold outcome at errored
  cases excluded : exclusion? scope rule with
  | some exclusion =>
    rw [excluded] at errored
    cases errored
  | none =>
    rw [excluded] at errored
    cases evaluated : (evaluate context rule files state).1 with
    | error failure => exact ⟨rfl, failure, rfl⟩
    | ok result =>
      simp only [evaluated, RuleOutcome.ofResult] at errored
      split at errored <;> cases errored

variable [Clock W] {config : EngineConfig W} {context : Context}

/-- The built-in engines are created without fail, and keep to what their adapters fail with. -/
theorem evaluate_fails (fails : config.adapters.Fails AfterCreation context)
    (files : List String) (rule : Rule) {state : Workshop W} (stocked : Stocked config state.1) :
    FailsOnly AfterCreation (evaluate context rule files state).1 ∧
      Stocked config (evaluate context rule files state).2.1 := by
  obtain ⟨registry, w⟩ := state
  cases known : EngineKind.find? rule.engine with
  | none =>
    rw [evaluate_unknown context files stocked known]
    exact ⟨failsOnly_error (Failure.Bare.afterCreation rfl), stocked⟩
  | some kind =>
    obtain ⟨registry', stocked', ran⟩ := evaluate_known context files stocked known w
    rw [ran]
    refine ⟨Evaluator.run_fails _ (fun registry given => ?_) rule files _ _ w, stocked'⟩
    obtain rfl := Option.some.inj given
    exact fails

theorem outcome_stocked (fails : config.adapters.Fails AfterCreation context)
    (files : List String) (scope : Scope) (rule : Rule) {state : Workshop W}
    (stocked : Stocked config state.1) :
    Stocked config (outcome context files scope rule state).2.1 := by
  unfold outcome
  cases exclusion? scope rule with
  | some exclusion => exact stocked
  | none => exact (evaluate_fails fails files rule stocked).2

/-- What a run of rules leaves as errored is marked exactly when it was interrupted. -/
theorem runAll_marks (fails : config.adapters.Fails AfterCreation context)
    (files : List String) (scope : Scope) (rules : List Rule) {state : Workshop W}
    (stocked : Stocked config state.1) {marked : RuleOutcome}
    (given : marked ∈ (runAll context files scope rules state).1) (errored : marked.status = .errored) :
    ∃ rule ∈ rules, ∃ (state' : Workshop W) (failure : Failure),
      marked = (outcome context files scope rule state').1 ∧
      (evaluate context rule files state').1 = .error failure ∧
      (marked.cancelled = true ↔ failure.root.IsInterruption) := by
  induction rules generalizing state with
  | nil => cases given
  | cons rule rest ih =>
    rcases List.mem_cons.mp given with rfl | later
    · obtain ⟨included, failure, failed⟩ := evaluated_of_errored errored
      have after : failure.AfterCreation := (evaluate_fails fails files rule stocked).1 failure failed
      refine ⟨rule, List.mem_cons_self, state, failure, rfl, failed, ?_⟩
      rw [(outcome_marked included failed).2.2, and_iff_left after]
    · obtain ⟨rule', member, found⟩ := ih (outcome_stocked fails files scope rule stocked) later
      exact ⟨rule', List.mem_cons_of_mem _ member, found⟩

/-- A failure counts as a cancellation when an interruption is its root and all layers around it are
installations; so does the outcome that it is left in, with any engines. With the built-in engines and
adapters no other layer comes up, and what is marked is what was interrupted. -/
theorem cancelled_told (layers : List Failure.Layer) (base : Failure) :
    (base.Bare → ((Failure.wrapped layers base).isCancellation = true ↔
      base.IsInterruption ∧ ∀ layer ∈ layers, layer.isInstallation = true)) ∧
    (∀ (W : Type) (context : Context) (files : List String) (scope : Scope) (rule : Rule)
      (state : Workshop W) (failure : Failure), exclusion? scope rule = none →
      (evaluate context rule files state).1 = .error failure →
      let marked := (outcome context files scope rule state).1
      marked.status = .errored ∧ marked.error = some failure.message ∧
        (marked.cancelled = true ↔ failure.root.IsInterruption ∧ failure.AfterCreation)) ∧
    ∀ (config : EngineConfig Host) (context : Context) (policy : Policy) (files : List String)
      (scope : Scope) (host : Host), (∀ adapter ∈ config.adapters.adapters, adapter.IsBuiltin) →
      ∀ marked ∈ (validate context policy files scope (builtin config, host)).1.outcomes,
        marked.status = .errored →
        ∃ rule ∈ policy.rules, ∃ (state : Workshop Host) (failure : Failure),
          marked = (outcome context files scope rule state).1 ∧
          (evaluate context rule files state).1 = .error failure ∧
          (marked.cancelled = true ↔ failure.root.IsInterruption) := by
  refine ⟨Failure.isCancellation_wrapped layers,
    fun _ _ _ _ _ _ _ included failed => outcome_marked included failed, ?_⟩
  intro config context policy files scope host known marked given errored
  have fails : config.adapters.Fails AfterCreation context := fun adapter member =>
    ((known adapter member).fails context).mono fun _ => Failure.Bare.afterCreation
  exact runAll_marks fails files scope policy.rules (builtin_stocked config) given errored

/-- A registry with one engine, which is called off while it is being created. -/
def unfinished : EngineRegistry Host :=
  ⟨⟨"/tools", .empty⟩, [("probe", fun host => (.error (.cancelled "probe"), host))], [], 0⟩

def probingRule : Rule :=
  ⟨"P", true, "", .error, none, none, ⟨[("engine", .string "probe")]⟩, none, none⟩

/-- What is called off then is not marked, though it is the root of the failure. -/
theorem creation_unmarked :
    let failure : Failure := .engineInit "probe" (.cancelled "probe")
    let marked := (outcome .plain [] ⟨none, none, []⟩ probingRule (unfinished, Host.bare)).1
    (evaluate .plain probingRule [] (unfinished, Host.bare)).1 = .error failure ∧
      failure.root.IsInterruption ∧ failure.isCancellation = false ∧
      marked.status = .errored ∧ marked.cancelled = false := by
  intro failure marked
  have failed : (evaluate .plain probingRule [] (unfinished, Host.bare)).1 = .error failure := by
    rfl
  exact ⟨failed, .cancelled "probe", rfl, rfl, rfl⟩

/-- A machine with a package manager and nothing else. -/
def packaging : Host :=
  { Host.bare with tree := FileTree.empty.plant ["bin", "npm"] (.program .idle), searchPath := ["/bin"] }

def stock : EngineConfig Host :=
  ⟨"/tools", Toolbox.adapters ⟨"/tools", .default⟩⟩

def namingRule : Rule :=
  ⟨"N", true, "", .error, none, none,
    ⟨[("engine", .string "pattern"), ("target", .string "identifier"), ("pattern", .string "^x")]⟩, none, none⟩

/-- A run that is called off from the start finds no linter, and is stopped while it installs one. Another is
stopped while it creates an engine. -/
theorem stopped_installation_told :
    let calledOff : Context := ⟨some 0, none, none⟩
    let report :=
      (validate calledOff ⟨"1", [namingRule]⟩ ["a.js"] ⟨none, none, []⟩ (builtin stock, packaging)).1
    (Failure.wrapped [.installation "eslint"] (.cancelled "npm")).isCancellation = true ∧
    (outcome .plain [] ⟨none, none, []⟩ probingRule (unfinished, Host.bare)).1.status = .errored ∧
    ∃ marked ∈ report.outcomes, marked.cancelled = true ∧ ∃ (state : Workshop Host) (failure : Failure),
      (evaluate calledOff namingRule ["a.js"] state).1 = .error failure ∧ failure.root.IsInterruption := by
  intro calledOff report
  obtain ⟨wrapped, single, whole⟩ := cancelled_told [.installation "eslint"] (.cancelled "npm")
  have failed : (evaluate .plain probingRule [] (unfinished, Host.bare)).1 =
      .error (.engineInit "probe" (.cancelled "probe")) := by
    rfl
  have only : (.errored, true) ∈ report.outcomes.map fun given => (given.status, given.cancelled) := by
    decide +kernel
  obtain ⟨marked, given, same⟩ := List.mem_map.mp only
  obtain ⟨errored, cancelled⟩ := Prod.mk.inj same
  have known : ∀ adapter ∈ stock.adapters.adapters, adapter.IsBuiltin := fun _ member => ⟨_, member⟩
  obtain ⟨rule, listed, state, failure, -, fails, told⟩ := whole stock calledOff ⟨"1", [namingRule]⟩ ["a.js"]
    ⟨none, none, []⟩ packaging known marked given errored
  obtain rfl := List.mem_singleton.mp listed
  exact ⟨(wrapped rfl).mpr ⟨.cancelled "npm", by simp [Failure.Layer.isInstallation]⟩,
    (single Host .plain [] ⟨none, none, []⟩ probingRule (unfinished, Host.bare) _ rfl failed).1,
    marked, given, cancelled, state, failure, fails, told.mp cancelled⟩

end Report
end PolicyLint
