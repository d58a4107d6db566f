import Mathlib.Data.List.Forall2
import PolicyLint.Proofs.Evaluation.Course
/-!
Whole evaluations. Main statement: whatever the adapters answer, an evaluation calls no other adapter
than the one it has found for its rule, keeps to the course, and ends with the first failure. What it
reports are the findings of its last call, one violation for each.
-/
namespace PolicyLint

/-! ### Violations -/

/-- What a violation says of its rule, and of what a tool found. The rule's message counts before the tool's,
and the tool's severity before the rule's. -/
structure Violation.Tells (v : Violation) (rule : Rule) (tool : String) (hint : Option Suggestion)
    (finding : Finding) : Prop where
  broken : v.ruleId = rule.id ∧ v.category = rule.category
  place : v.file = finding.file ∧ v.line = finding.line ∧ v.column = finding.column ∧
    v.endLine = finding.endLine ∧ v.endColumn = finding.endColumn
  own_message : ∀ message ∈ rule.message?, v.message = message
  tool_message : rule.message? = none → v.message = finding.message
  tool_severity : ∀ severity ∈ Severity.ofTool? finding.severity, v.severity = severity
  own_severity : Severity.ofTool? finding.severity = none → v.severity = rule.severity
  hinted : v.suggestion = hint
  /-- The tool's own words are kept, where it has any. -/
  context : ∀ entry, entry ∈ v.context ↔ entry = ("tool", .string tool) ∨
    finding.ruleId ≠ "" ∧ entry = ("toolRule", .string finding.ruleId) ∨
    finding.severity ≠ "" ∧ entry = ("toolSeverity", .string finding.severity)
  context_once : (v.context.map Prod.fst).Nodup

theorem mem_textMember {name text : String} {entry : String × Json} :
    entry ∈ textMember name text ↔ text ≠ "" ∧ entry = (name, .string text) := by
  unfold textMember
  split <;> simp [*]

theorem keys_textMember (name text : String) :
    (textMember name text).map Prod.fst = if text = "" then [] else [name] := by
  unfold textMember
  split <;> rfl

theorem Evaluator.violation_tells (rule : Rule) (tool : String) (hint : Option Suggestion) (finding : Finding) :
    (violation rule tool hint finding).Tells rule tool hint finding where
  broken := ⟨rfl, rfl⟩
  place := ⟨rfl, rfl, rfl, rfl, rfl⟩
  own_message message own := by
    rw [violation, Option.mem_def.mp own, Option.getD_some]
  tool_message left := by
    rw [violation, left, Option.getD_none]
  tool_severity severity word := by
    rw [violation, Option.mem_def.mp word, Option.getD_some]
  own_severity unknown := by
    rw [violation, unknown, Option.getD_none]
  hinted := rfl
  context entry := by
    simp only [violation, List.mem_append, List.mem_singleton, mem_textMember, or_assoc]
  context_once := by
    simp only [violation, List.map_append, keys_textMember]
    by_cases ruled : finding.ruleId = "" <;> by_cases graded : finding.severity = "" <;> simp [ruled, graded]

namespace Evaluator

theorem run_apply [Clock W] (evaluator : Evaluator W) (context : Context) (rule : Rule)
    (files : List String) (pinned : Option String) (suggestion : Option Suggestion) (w : W) :
    evaluator.run context rule files pinned suggestion w =
      let kept := Selector.keep rule.selector files
      let language := Selector.language rule.selector kept
      let started := Clock.read w
      if kept = [] then (.ok (.trivial rule.id evaluator.engine), started.2)
      else
        match evaluator.adapterFor rule language pinned with
        | .error failure => (.error failure, started.2)
        | .ok adapter =>
          match findings context adapter evaluator.install rule kept started.2 with
          | (.error failure, w') => (.error failure, w')
          | (.ok found, w') =>
            (.ok (.ofViolations rule.id evaluator.engine language
              (found.map (violation rule adapter.name suggestion))
              ((Clock.read w').1 - started.1)), (Clock.read w').2) := by
  simp only [run, Action.bind_apply, Action.always_apply]
  by_cases empty : Selector.keep rule.selector files = []
  · simp [empty, Action.pure_apply]
  simp only [List.isEmpty_iff, empty, if_false, Action.bind_apply, Action.ofExcept_apply]
  generalize Selector.keep rule.selector files = kept
  rcases evaluator.adapterFor rule _ pinned with failure | adapter
  · rfl
  dsimp only
  rcases findings context adapter evaluator.install rule kept (Clock.read w).2 with ⟨_ | _, _⟩
  · rfl
  · rfl

end Evaluator

/-- How a rule comes by its adapter, or why it does not. -/
inductive Resolution (evaluator : Evaluator W) (rule : Rule) (language : String)
    (pinned : Option String) : Except Failure (Adapter W) → Prop where
  | uninitialized : evaluator.adapters = none →
      Resolution evaluator rule language pinned (.error (.engineNotInitialized evaluator.engine))
  | malformed {registry : AdapterRegistry W} {failure : Failure} :
      evaluator.adapters = some registry → rule.spec = .error failure →
      Resolution evaluator rule language pinned (.error failure)
  | misdirected {registry : AdapterRegistry W} {spec : CheckSpec} :
      evaluator.adapters = some registry → rule.spec = .ok spec → rule.engine ≠ evaluator.engine →
      Resolution evaluator rule language pinned
        (.error (.config rule.id
          s!"check targets engine '{rule.engine}', not '{evaluator.engine}'"))
  | named {registry : AdapterRegistry W} {spec : CheckSpec} {name : String} :
      evaluator.adapters = some registry → rule.spec = .ok spec → rule.engine = evaluator.engine →
      pinned = some name → Resolution evaluator rule language pinned (registry.get name)
  | found {registry : AdapterRegistry W} {spec : CheckSpec} :
      evaluator.adapters = some registry → rule.spec = .ok spec → rule.engine = evaluator.engine →
      pinned = none →
      Resolution evaluator rule language pinned (registry.find language evaluator.category)

/-- An evaluation: the calls it makes of which adapters, and its outcome. -/
inductive Evaluation (evaluator : Evaluator W) (context : Context) (rule : Rule)
    (files : List String) (pinned : Option String) (suggestion : Option Suggestion) :
    List (Adapter W × Exchange) → Except Failure RuleResult → Prop where
  | unconcerned : Selector.keep rule.selector files = [] →
      Evaluation evaluator context rule files pinned suggestion []
        (.ok (.trivial rule.id evaluator.engine))
  | unresolved {kept : List String} {failure : Failure} :
      Selector.keep rule.selector files = kept → kept ≠ [] →
      Resolution evaluator rule (Selector.language rule.selector kept) pinned (.error failure) →
      Evaluation evaluator context rule files pinned suggestion [] (.error failure)
  | failed {kept : List String} {adapter : Adapter W} {calls : List Exchange} {failure : Failure} :
      Selector.keep rule.selector files = kept → kept ≠ [] →
      Resolution evaluator rule (Selector.language rule.selector kept) pinned (.ok adapter) →
      Course adapter context evaluator.install rule kept calls (.error failure) →
      Evaluation evaluator context rule files pinned suggestion (calls.map (adapter, ·))
        (.error failure)
  | completed {kept : List String} {adapter : Adapter W} {calls : List Exchange}
      {found : List Finding} (duration : Duration) :
      Selector.keep rule.selector files = kept → kept ≠ [] →
      Resolution evaluator rule (Selector.language rule.selector kept) pinned (.ok adapter) →
      Course adapter context evaluator.install rule kept calls (.ok found) →
      Evaluation evaluator context rule files pinned suggestion (calls.map (adapter, ·))
        (.ok (.ofViolations rule.id evaluator.engine (Selector.language rule.selector kept)
          (found.map (Evaluator.violation rule adapter.name suggestion)) duration))

theorem Evaluator.adapterFor_resolves (evaluator : Evaluator W) (rule : Rule) (language : String)
    (pinned : Option String) :
    Resolution evaluator rule language pinned (evaluator.adapterFor rule language pinned) := by
  cases adapters : evaluator.adapters with
  | none =>
    simpa only [adapterFor, adapters] using .uninitialized adapters
  | some registry =>
    simp only [adapterFor, adapters]
    cases spec : rule.spec with
    | error failure => exact .malformed adapters spec
    | ok _ =>
      simp only [bind, Except.bind]
      by_cases own : rule.engine = evaluator.engine
      · rw [if_neg (not_not.mpr own)]
        cases pinned with
        | some name => exact .named adapters spec own rfl
        | none => exact .found adapters spec own rfl
      · rw [if_pos own]
        exact .misdirected adapters spec own

namespace Evaluation

variable {evaluator : Evaluator W} {context : Context} {rule : Rule} {files : List String}
  {pinned : Option String} {suggestion : Option Suggestion} {entries : List (Adapter W × Exchange)}
  {outcome : Except Failure RuleResult}

theorem calls_course
    (evaluation : Evaluation evaluator context rule files pinned suggestion entries outcome) :
    entries = [] ∨ ∃ adapter calls found, entries = calls.map (adapter, ·) ∧
      Course adapter context evaluator.install rule (Selector.keep rule.selector files) calls
        found := by
  cases evaluation with
  | unconcerned | unresolved => exact .inl rfl
  | failed keeps _ _ course | completed _ keeps _ _ course =>
    subst keeps
    exact .inr ⟨_, _, _, rfl, course⟩

theorem installs_le
    (evaluation : Evaluation evaluator context rule files pinned suggestion entries outcome) :
    (entries.countP fun entry => entry.2.isInstall) ≤ 1 := by
  rcases evaluation.calls_course with rfl | ⟨adapter, calls, found, rfl, course⟩
  · simp
  · rw [List.countP_map]
    exact course.installs_le

theorem execution
    (evaluation : Evaluation evaluator context rule files pinned suggestion entries outcome)
    {adapter : Adapter W} {caller : Context} {config : String} {given : List String}
    {answer : Except Failure Output} {before after : List (Adapter W × Exchange)}
    (split : entries = before ++ (adapter, .executed caller config given answer) :: after) :
    caller = context ∧ given = Selector.keep rule.selector files ∧ ∃ earlier, before = earlier ++
      [(adapter, .checked context (.ok ())), (adapter, .configured rule (.ok config))] := by
  rcases evaluation.calls_course with rfl | ⟨found, calls, result, rfl, course⟩
  · simp at split
  obtain ⟨front, rest, rfl, rfl, same⟩ := List.map_eq_append_iff.mp split
  obtain ⟨call, back, rfl, executed, rfl⟩ := List.map_eq_cons_iff.mp same
  obtain ⟨rfl, rfl⟩ := Prod.mk.inj executed
  obtain ⟨rfl, rfl, earlier, rfl⟩ := course.execution rfl
  exact ⟨rfl, rfl, earlier.map (found, ·), by simp⟩

theorem of_unconcerned
    (evaluation : Evaluation evaluator context rule files pinned suggestion entries outcome)
    (empty : Selector.keep rule.selector files = []) :
    entries = [] ∧ outcome = .ok (.trivial rule.id evaluator.engine) := by
  cases evaluation with
  | unconcerned => exact ⟨rfl, rfl⟩
  | unresolved keeps nonempty | failed keeps nonempty | completed _ keeps nonempty =>
    exact absurd (keeps.symm.trans empty) nonempty

/-- The violations of a rule tell what was read of the last output, one each and in order. -/
theorem tells {result : RuleResult}
    (evaluation : Evaluation evaluator context rule files pinned suggestion entries (.ok result)) :
    (entries = [] ∧ result.violations = []) ∨
      ∃ earlier adapter output found, entries = earlier ++ [(adapter, .parsed output (.ok found))] ∧
        List.Forall₂ (fun finding v => v.Tells rule adapter.name suggestion finding) found
          result.violations := by
  cases evaluation with
  | unconcerned => exact .inl ⟨rfl, rfl⟩
  | @completed _ adapter _ found _ _ _ _ course =>
    obtain ⟨earlier, output, rfl⟩ := course.parsed_last
    refine .inr ⟨earlier.map (adapter, ·), adapter, output, found, List.map_append, ?_⟩
    rw [RuleResult.ofViolations, List.forall₂_map_right_iff, List.forall₂_same]
    exact fun finding _ => Evaluator.violation_tells rule adapter.name suggestion finding

end Evaluation

/-- Watched or not, an evaluation takes the same course. -/
theorem Evaluator.run_watched [Clock W] (evaluator : Evaluator W) (context : Context) (rule : Rule)
    (files : List String) (pinned : Option String) (suggestion : Option Suggestion)
    (ledger : Ledger W) :
    let plain := evaluator.run context rule files pinned suggestion ledger.world
    let watched := evaluator.watched.run context rule files pinned suggestion ledger
    watched.1 = plain.1 ∧ watched.2.world = plain.2 ∧
      ∃ entries, watched.2.entries = ledger.entries ++ entries ∧
        Evaluation evaluator context rule files pinned suggestion entries plain.1 := by
  intro plain watched
  have resolved := evaluator.adapterFor_resolves rule
    (Selector.language rule.selector (Selector.keep rule.selector files)) pinned
  simp only [plain, watched, run_apply, watched_adapterFor]
  by_cases empty : Selector.keep rule.selector files = []
  · simp only [empty, if_true]
    exact ⟨rfl, rfl, [], (List.append_nil _).symm, .unconcerned empty⟩
  simp only [empty, if_false]
  generalize kept : Selector.keep rule.selector files = files' at *
  cases found : evaluator.adapterFor rule (Selector.language rule.selector files') pinned with
  | error failure =>
    exact ⟨rfl, rfl, [], (List.append_nil _).symm, .unresolved kept empty (found ▸ resolved)⟩
  | ok adapter =>
    rw [found] at resolved
    obtain ⟨calls, course, run⟩ := findings_follows adapter context evaluator.install rule files'
      ⟨(Clock.read ledger.world).2, ledger.entries⟩
    have request : evaluator.watched.install = evaluator.install := rfl
    simp only [Except.map, Ledger.read_later, request, run]
    generalize findings context adapter evaluator.install rule files' (Clock.read ledger.world).2 =
      done at course
    rcases done with ⟨failure | found, w⟩
    · exact ⟨rfl, rfl, _, rfl, .failed kept empty resolved course⟩
    · exact ⟨rfl, rfl, _, rfl, .completed _ kept empty resolved course⟩

/-- One evaluation makes its calls of one adapter, in the order of the course and each only after all
before it went well, and has the outcome that belongs to them. So it installs at most once, and runs a
tool only when it was just found, as it was just configured, and on the files that the rule keeps;
where the rule keeps none, nothing is asked of anyone and the rule passes. -/
theorem Evaluator.run_course [Clock W] (evaluator : Evaluator W) (context : Context) (rule : Rule)
    (files : List String) (pinned : Option String) (suggestion : Option Suggestion)
    (ledger : Ledger W) :
    let plain := evaluator.run context rule files pinned suggestion ledger.world
    let watched := evaluator.watched.run context rule files pinned suggestion ledger
    let kept := Selector.keep rule.selector files
    watched.1 = plain.1 ∧ watched.2.world = plain.2 ∧
      ∃ entries, watched.2.entries = ledger.entries ++ entries ∧
        Evaluation evaluator context rule files pinned suggestion entries plain.1 ∧
        (entries.countP fun entry => entry.2.isInstall) ≤ 1 ∧
        (∀ before adapter caller config given answer after,
          entries = before ++ (adapter, .executed caller config given answer) :: after →
          caller = context ∧ given = kept ∧ ∃ earlier, before = earlier ++
            [(adapter, .checked context (.ok ())), (adapter, .configured rule (.ok config))]) ∧
        (kept = [] → entries = [] ∧ plain.1 = .ok (.trivial rule.id evaluator.engine)) := by
  intro plain watched kept
  obtain ⟨same, world, entries, grown, evaluation⟩ :=
    evaluator.run_watched context rule files pinned suggestion ledger
  refine ⟨same, world, entries, grown, evaluation, evaluation.installs_le, ?_,
    evaluation.of_unconcerned⟩
  intro before adapter caller config given answer after split
  exact evaluation.execution split

end PolicyLint
