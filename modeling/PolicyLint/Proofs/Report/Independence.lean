import PolicyLint.Report.Validation
import PolicyLint.Proofs.Engine.Registry
import PolicyLint.Proofs.Evaluation.Steady
/-!
Rules do not see one another. Engines are made once and kept, and an installation for one rule is there
for the next, but with adapters that have no memory neither shows: main statement, every rule of a
policy has the outcome that it has alone.
-/
namespace PolicyLint

open EngineRegistry

/-- An outcome without the time it took. -/
def RuleOutcome.timeless (outcome : RuleOutcome) : RuleOutcome :=
  { outcome with result := outcome.result.map RuleResult.timeless }

theorem RuleOutcome.timeless_ofResult (rule : Rule) (result : Except Failure RuleResult) :
    (ofResult rule result).timeless = ofResult rule (result.map RuleResult.timeless) := by
  cases result <;> rfl

namespace Report

variable (context : Context) (files : List String) (rule : Rule)

/-! ### Rules that are passed over -/

/-- A rule that is passed over leaves no trace: the world and the engines stay as they were. -/
theorem outcome_skipped {rule : Rule} {scope : Scope} {exclusion : Exclusion}
    (excluded : exclusion? scope rule = some exclusion) (state : Workshop W) :
    outcome context files scope rule state = (.skipped rule exclusion, state) := by
  rw [outcome, excluded]

/-- A run does to the world and the engines what it does without the rules that are passed over. -/
theorem runAll_skipping (scope : Scope) (rules : List Rule) (state : Workshop W) :
    (runAll context files scope rules state).2 =
      (runAll context files scope (rules.filter fun rule => (exclusion? scope rule).isNone)
        state).2 := by
  induction rules generalizing state with
  | nil => rfl
  | cons rule rest ih =>
    cases excluded : exclusion? scope rule with
    | some exclusion =>
      rw [List.filter_cons_of_neg (by simp [excluded])]
      simp only [runAll, outcome_skipped context files excluded]
      exact ih state
    | none =>
      rw [List.filter_cons_of_pos (by simp [excluded])]
      exact ih _

/-! ### Rules that are evaluated -/

variable [Clock W] {config : EngineConfig W} {registry : EngineRegistry W}

theorem evaluate_unknown {rule : Rule} (stocked : Stocked config registry)
    (unknown : EngineKind.find? rule.engine = none) (w : W) :
    evaluate context rule files (registry, w) =
      (.error (.engineNotRegistered rule.engine), registry, w) := by
  rw [evaluate, Action.bind_apply, stocked.get_unknown unknown]

theorem evaluate_known {rule : Rule} {kind : EngineKind} (stocked : Stocked config registry)
    (known : EngineKind.find? rule.engine = some kind) (w : W) :
    ∃ registry', Stocked config registry' ∧
      evaluate context rule files (registry, w) =
        let r := (kind.engine (some config)).validate context rule files w
        (r.1, registry', r.2) := by
  obtain ⟨inst, registry', got, engine, stocked'⟩ := stocked.get_known known w
  refine ⟨registry', stocked', ?_⟩
  rw [evaluate, Action.bind_apply, got]
  simp only [inWorld, engine]

variable {context} {isThere : Adapter W → W → Bool}

/-- A state that the run of a policy may have reached from a world with the built-in engines: the
engines are those of the configuration, and no tool has changed but by being put there on demand. -/
def Reached (config : EngineConfig W) (isThere : Adapter W → W → Bool) (context : Context) (base : W)
    (state : Workshop W) : Prop :=
  Stocked config state.1 ∧ Agree config.adapters isThere context config.request base state.2

theorem evaluate_reached {base : W} {state : Workshop W}
    (steady : config.adapters.Steady isThere context)
    (reached : Reached config isThere context base state) :
    (evaluate context rule files state).1.map RuleResult.timeless =
        (evaluate context rule files (builtin config, base)).1.map RuleResult.timeless ∧
      Reached config isThere context base (evaluate context rule files state).2 := by
  obtain ⟨registry, w⟩ := state
  obtain ⟨stocked, agree⟩ := reached
  cases known : EngineKind.find? rule.engine with
  | none =>
    rw [evaluate_unknown context files stocked known,
      evaluate_unknown context files (builtin_stocked config) known]
    exact ⟨rfl, stocked, agree⟩
  | some kind =>
    obtain ⟨registry', stocked', ran⟩ := evaluate_known context files stocked known w
    obtain ⟨_, _, alone⟩ := evaluate_known context files (builtin_stocked config) known base
    have alike := Evaluator.run_alike
      ⟨kind.name, kind.name, some config.adapters, config.request⟩ steady rfl rule files
      (kind.pinned? rule) (kind.suggestion? rule)
    rw [ran, alone]
    exact ⟨(alike base).2 w agree, stocked', agree.trans (alike w).1⟩

theorem outcome_reached {base : W} {state : Workshop W} (scope : Scope)
    (steady : config.adapters.Steady isThere context)
    (reached : Reached config isThere context base state) :
    (outcome context files scope rule state).1.timeless =
        (outcome context files scope rule (builtin config, base)).1.timeless ∧
      Reached config isThere context base (outcome context files scope rule state).2 := by
  unfold outcome
  cases exclusion? scope rule with
  | some exclusion => exact ⟨rfl, reached⟩
  | none =>
    obtain ⟨same, reached'⟩ := evaluate_reached files rule steady reached
    refine ⟨?_, reached'⟩
    simp only [RuleOutcome.timeless_ofResult, same]

theorem runAll_reached {base : W} (scope : Scope) (steady : config.adapters.Steady isThere context)
    (rules : List Rule) {state : Workshop W}
    (reached : Reached config isThere context base state) :
    (runAll context files scope rules state).1.map RuleOutcome.timeless =
        rules.map (fun rule =>
          (outcome context files scope rule (builtin config, base)).1.timeless) ∧
      Reached config isThere context base (runAll context files scope rules state).2 := by
  -- The state differs from rule to rule; that it was reached from the base is what they share.
  induction rules generalizing state with
  | nil => exact ⟨rfl, reached⟩
  | cons rule rest ih =>
    obtain ⟨first, reached'⟩ := outcome_reached files rule scope steady reached
    obtain ⟨others, reached''⟩ := ih reached'
    exact ⟨List.cons_eq_cons.mpr ⟨first, others⟩, reached''⟩

/-- The outcomes of rules, durations aside, by built-in engines that are made for them. -/
def freshOutcomes (config : EngineConfig W) (context : Context) (files : List String) (scope : Scope)
    (w : W) (policy : Policy) : List RuleOutcome :=
  (validate context policy files scope (builtin config, w)).1.outcomes.map RuleOutcome.timeless

/-- With adapters without a memory every rule has the outcome that it has alone, so rules that are
put in another order, added or taken away leave the outcomes of the others as they are. A rule that is
passed over calls no adapter and makes no engine, whatever the state. -/
theorem outcomes_independent (steady : config.adapters.Steady isThere context) (policy : Policy)
    (files : List String) (scope : Scope) (w : W) :
    let outcomes := fun rules => freshOutcomes config context files scope w { policy with rules }
    (∃ alone : Rule → RuleOutcome,
      (∀ rule, outcomes [rule] = [alone rule]) ∧ ∀ rules, outcomes rules = rules.map alone) ∧
    (∀ rules : List Rule, policy.rules.Perm rules →
      (policy.rules.zip (outcomes policy.rules)).Perm (rules.zip (outcomes rules))) ∧
    (∀ rules : List Rule, rules.Sublist policy.rules →
      (rules.zip (outcomes rules)).Sublist (policy.rules.zip (outcomes policy.rules))) ∧
    (∀ rule exclusion, exclusion? scope rule = some exclusion → ∀ state : Workshop W,
      outcome context files scope rule state = (.skipped rule exclusion, state)) ∧
    ∀ state : Workshop W, (validate context policy files scope state).2 =
      (validate context
        { policy with rules := policy.rules.filter fun rule => (exclusion? scope rule).isNone }
        files scope state).2 := by
  intro outcomes
  have alone (rules : List Rule) : outcomes rules = rules.map fun rule =>
      (outcome context files scope rule (builtin config, w)).1.timeless :=
    (runAll_reached files scope steady rules ⟨builtin_stocked config, .refl w⟩).1
  have paired (rules : List Rule) : rules.zip (outcomes rules) = rules.map fun rule =>
      (rule, (outcome context files scope rule (builtin config, w)).1.timeless) := by
    rw [alone]
    simpa using List.zip_map' (f := id) (l := rules)
  refine ⟨⟨_, fun rule => alone [rule], alone⟩, ?_, ?_, ?_, ?_⟩
  · intro rules perm
    rw [paired, paired]
    exact perm.map _
  · intro rules sublist
    rw [paired, paired]
    exact sublist.map _
  · exact fun rule exclusion excluded state => outcome_skipped context files excluded state
  · exact fun state => runAll_skipping context files scope policy.rules state

end Report

/-! ### A bench with two tools -/

/-- A world in which one tool can be installed. -/
structure Bench where
  now : Nat
  installed : Bool

instance : Clock Bench :=
  ⟨fun bench => (bench.now, { bench with now := bench.now + 1 })⟩

namespace Bench

def missing (name : String) : Failure :=
  .adapterUnavailable name "not on the bench"

/-- A tool that finds one fault, when it is there. -/
def adapter (name category : String) (installs : Bool) : Adapter Bench where
  capabilities := ⟨name, ["javascript"], [category], "1"⟩
  check := fun _ bench =>
    (if installs && bench.installed then .ok () else .error (missing name), bench)
  install := fun _ _ bench =>
    if installs then (.ok (), { bench with installed := true }) else (.error (missing name), bench)
  configure := fun _ bench => (.ok "", bench)
  execute := fun _ _ _ bench => (.ok ⟨"", "", 1⟩, bench)
  parse := fun _ bench => (.ok [⟨"a.js", 1, 1, none, none, "fault", "error", "fault"⟩], bench)

def linter : Adapter Bench := adapter "linter" "pattern" true

/-- Its installation always fails. -/
def finder : Adapter Bench := adapter "finder" "ast" false

def isThere (adapter : Adapter Bench) (bench : Bench) : Bool :=
  adapter.name == "linter" && bench.installed

def config : EngineConfig Bench := ⟨"tools", ⟨[linter, finder]⟩⟩

def rule (id engine : String) : Rule :=
  ⟨id, true, "", .error, none, none, ⟨[("engine", .string engine), ("pattern", .string "x"),
    ("target", .string "content"), ("node", .string "CallExpression")]⟩, none, none⟩

theorem steady (context : Context) : config.adapters.Steady isThere context := by
  refine ⟨?_, fun _ _ _ => rfl⟩
  intro adapter known
  have still (bench : Bench) : SameTools config.adapters.adapters isThere bench bench :=
    fun _ _ => rfl
  rcases List.mem_pair.mp known with rfl | rfl
  · refine ⟨⟨missing "linter", fun bench => ⟨rfl, still bench⟩⟩, fun _ => .inl ?_,
      fun _ => ⟨_, fun bench => ⟨rfl, still bench⟩⟩, fun _ _ => ⟨_, fun bench => ⟨rfl, still bench⟩⟩,
      fun _ => ⟨_, fun bench => ⟨rfl, still bench⟩⟩⟩
    refine fun bench => ⟨rfl, rfl, fun other listed unlike => ?_⟩
    obtain rfl := (List.mem_pair.mp listed).resolve_left unlike
    rfl
  · exact ⟨⟨missing "finder", fun bench => ⟨rfl, still bench⟩⟩,
      fun _ => .inr ⟨_, fun bench => ⟨rfl, still bench⟩⟩,
      fun _ => ⟨_, fun bench => ⟨rfl, still bench⟩⟩, fun _ _ => ⟨_, fun bench => ⟨rfl, still bench⟩⟩,
      fun _ => ⟨_, fun bench => ⟨rfl, still bench⟩⟩⟩

/-- The linter is installed for the first rule and there for the third, and the rule between them
cannot have its tool. -/
theorem bench_outcomes_independent :
    config.adapters.Steady isThere .plain ∧ ∃ linted unfound,
      Report.freshOutcomes config .plain ["a.js"] ⟨none, none, []⟩ ⟨0, false⟩
          ⟨"1", [rule "A" "pattern", rule "B" "ast", rule "A" "pattern"]⟩ =
        [linted, unfound, linted] ∧
      Report.freshOutcomes config .plain ["a.js"] ⟨none, none, []⟩ ⟨0, false⟩
          ⟨"1", [rule "B" "ast"]⟩ = [unfound] := by
  refine ⟨steady .plain, ?_⟩
  obtain ⟨⟨alone, single, all⟩, -⟩ := Report.outcomes_independent (steady .plain)
    ⟨"1", [rule "A" "pattern", rule "B" "ast", rule "A" "pattern"]⟩ ["a.js"] ⟨none, none, []⟩
    ⟨0, false⟩
  exact ⟨alone (rule "A" "pattern"), alone (rule "B" "ast"), all _, single (rule "B" "ast")⟩

end Bench
end PolicyLint
