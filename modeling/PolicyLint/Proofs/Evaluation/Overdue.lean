import PolicyLint.Proofs.Evaluation.Steady
import PolicyLint.Proofs.Host.Passage
import PolicyLint.Tool.Toolbox
/-!
Evaluations under a context that is over before they begin. The context is looked at right before a tool
is run and nowhere else, behind the search for the adapter, the look for its tool, an installation and
the configuration. Main statement: such an evaluation still has no result, unless no file concerns its
rule, and it starts no program on the way.
-/
namespace PolicyLint

open Host (Passage)
open PolicyLint.Action

/-! ### The built-in adapters -/

namespace Toolbox

variable {context : Context}

theorem orIo_apply (result : Except OsError α) (host : Host) :
    orIo result host = (result.mapError fun error => .io error.message, host) := rfl

/-- The package manager is a program like any other: directories may be made for it, and the manifest,
but it is not started. -/
theorem installPackage_passes (executor : Executor) (directory package version : String) :
    Passes Host.Quiet context (installPackage executor context directory package version) := by
  intro host past
  have npm_passes : ∀ (npm : String) (tree : FileTree) (next : Output → Action Host Unit),
      host.Quiet ((executor.execute { context with directory := some directory } npm
        ["install", package ++ "@" ++ version] >>= next) { host with tree }).2 := by
    intro npm tree next
    have quiet := host.quiet_of_files tree host.scratch
    have refused := (executor.execute_refuses { context with directory := some directory } npm
      ["install", package ++ "@" ++ version]).bind next { host with tree } past
    exact Host.quiet_passage.trans quiet refused.2
  unfold installPackage
  rw [bind_apply, get_apply]
  dsimp only
  rw [bind_apply, orIo_apply]
  cases host.tree.makeDirectories host.directory directory with
  | error error => exact .refl host
  | ok tree =>
    dsimp only [Except.mapError]
    rw [bind_apply, set_apply]
    dsimp only
    cases host.which? "npm" with
    | none => exact host.quiet_of_files tree host.scratch
    | some npm =>
      dsimp only
      split
      · rw [bind_apply, orIo_apply]
        cases tree.write host.directory (Path.join directory "package.json")
            (Text.Utf8.encode manifest.pretty) with
        | error error => exact host.quiet_of_files tree host.scratch
        | ok written =>
          dsimp only [Except.mapError]
          rw [bind_apply, set_apply]
          exact npm_passes npm written _
      · exact npm_passes npm tree _

theorem installPackaged_passes (box : Toolbox) (package version : String) (request : InstallRequest) :
    Passes Host.Quiet context (box.installPackaged package version context request) :=
  installPackage_passes _ _ _ _

theorem checkPackaged_passes (box : Toolbox) (name : String) (context' : Context) :
    Passes Host.Quiet context (box.checkPackaged name context') :=
  passes_get fun _ => passes_guard Host.quiet_passage _ _

theorem java_passes : Passes Host.Quiet context java := by
  refine passes_get fun host => ?_
  split
  · exact passes_pure Host.quiet_passage _
  · exact (refuses_fail Host.quiet_passage _).passes

theorem checkCheckstyle_passes (box : Toolbox) (context' : Context) :
    Passes Host.Quiet context (box.checkCheckstyle context') :=
  java_passes.bind Host.quiet_passage fun _ =>
    passes_get fun _ => passes_guard Host.quiet_passage _ _

theorem installCheckstyle_passes (box : Toolbox) (context' : Context) (request : InstallRequest) :
    Passes Host.Quiet context (box.installCheckstyle context' request) :=
  passes_get fun _ => passes_guard Host.quiet_passage _ _

theorem checkPmd_passes (box : Toolbox) (context' : Context) :
    Passes Host.Quiet context (box.checkPmd context') :=
  passes_get fun _ => passes_guard Host.quiet_passage _ _

theorem installPmd_passes (box : Toolbox) (context' : Context) (request : InstallRequest) :
    Passes Host.Quiet context (box.installPmd context' request) :=
  passes_get fun _ => passes_guard Host.quiet_passage _ _

variable {files : List String}

theorem runEslint_refuses (box : Toolbox) (config : String) (nonempty : files ≠ []) :
    Refuses Host.Quiet context (box.runEslint context config files) := by
  have full : files.isEmpty = false := by simpa using nonempty
  simp only [runEslint, full, Bool.false_eq_true, if_false]
  refine Refuses.withConfig (fun path => refuses_get fun host => ?_) _ _ _ _
  exact (Executor.execute_refuses _ _ _ _).bind _

theorem runPrettier_refuses (box : Toolbox) (mode : Tool.Prettier.Mode) (config : String)
    (nonempty : files ≠ []) : Refuses Host.Quiet context (box.runPrettier mode context config files) := by
  have full : files.isEmpty = false := by simpa using nonempty
  simp only [runPrettier, full, Bool.false_eq_true, if_false]
  refine Refuses.withConfig (fun path => refuses_get fun host => ?_) _ _ _ _
  exact (Executor.execute_refuses _ _ _ _).bind _

theorem runTsc_refuses (box : Toolbox) (config : String) (nonempty : files ≠ []) :
    Refuses Host.Quiet context (box.runTsc context config files) := by
  have full : files.isEmpty = false := by simpa using nonempty
  simp only [runTsc, full, Bool.false_eq_true, if_false]
  refine Passes.bind_refuses Host.quiet_passage (passes_ofExcept Host.quiet_passage _) fun content => ?_
  refine Refuses.withConfig (fun path => refuses_get fun host => ?_) _ _ _ _
  exact Executor.execute_refuses _ _ _ _

theorem runCheckstyle_refuses (box : Toolbox) (config : String) (nonempty : files ≠ []) :
    Refuses Host.Quiet context (box.runCheckstyle context config files) := by
  have full : files.isEmpty = false := by simpa using nonempty
  simp only [runCheckstyle, full, Bool.false_eq_true, if_false]
  refine java_passes.bind_refuses Host.quiet_passage fun java => ?_
  exact Refuses.withConfig (fun path => Executor.execute_refuses _ _ _ _) _ _ _ _

theorem runPmd_refuses (box : Toolbox) (config : String) (nonempty : files ≠ []) :
    Refuses Host.Quiet context (box.runPmd context config files) := by
  have full : files.isEmpty = false := by simpa using nonempty
  simp only [runPmd, full, Bool.false_eq_true, if_false]
  refine refuses_get fun host => ?_
  split
  · exact refuses_fail Host.quiet_passage _
  · refine Refuses.withConfig (fun path => ?_) _ _ _ _
    exact (Executor.execute_refuses _ _ _ _).bind _

end Toolbox

/-! ### Adapters that heed a context -/

/-- An adapter that fails to run its tool once the context is over; what else it does is a passage. -/
structure Adapter.Heeds (may : Host → Host → Prop) (context : Context) (adapter : Adapter Host) :
    Prop where
  check : Passes may context (adapter.check context)
  install : ∀ request, Passes may context (adapter.install context request)
  configure : ∀ rule, Passes may context (adapter.configure rule)
  execute : ∀ config files, files ≠ [] → Refuses may context (adapter.execute context config files)

theorem Adapter.Heeds.of_quiet {may : Host → Host → Prop} (passage : Passage may) {context : Context}
    {adapter : Adapter Host} (heeds : adapter.Heeds Host.Quiet context) : adapter.Heeds may context where
  check := heeds.check.of_quiet passage
  install request := (heeds.install request).of_quiet passage
  configure rule := (heeds.configure rule).of_quiet passage
  execute config files nonempty := (heeds.execute config files nonempty).of_quiet passage

def Adapter.IsBuiltin (adapter : Adapter Host) : Prop :=
  ∃ box : Toolbox, adapter ∈ box.adapters.adapters

theorem Toolbox.mem_adapters {box : Toolbox} {adapter : Adapter Host}
    (member : adapter ∈ box.adapters.adapters) :
    adapter = box.eslint ∨ adapter = box.prettier ∨ adapter = box.tsc ∨ adapter = box.checkstyle ∨
      adapter = box.pmd := by
  simpa [adapters] using member

theorem Adapter.IsBuiltin.heeds {adapter : Adapter Host} (builtin : adapter.IsBuiltin)
    (context : Context) : adapter.Heeds Host.Quiet context := by
  obtain ⟨box, member⟩ := builtin
  have configured (result : Except Failure String) :
      Passes Host.Quiet context (Action.ofExcept result) := passes_ofExcept Host.quiet_passage result
  rcases Toolbox.mem_adapters member with rfl | rfl | rfl | rfl | rfl
  · exact ⟨box.checkPackaged_passes _ context, box.installPackaged_passes _ _, fun _ => configured _,
      fun _ _ nonempty => box.runEslint_refuses _ nonempty⟩
  · exact ⟨box.checkPackaged_passes _ context, box.installPackaged_passes _ _, fun _ => configured _,
      fun _ _ nonempty => box.runPrettier_refuses _ _ nonempty⟩
  · exact ⟨box.checkPackaged_passes _ context, box.installPackaged_passes _ _, fun _ => configured _,
      fun _ _ nonempty => box.runTsc_refuses _ nonempty⟩
  · exact ⟨box.checkCheckstyle_passes context, box.installCheckstyle_passes context, fun _ => configured _,
      fun _ _ nonempty => box.runCheckstyle_refuses _ nonempty⟩
  · exact ⟨box.checkPmd_passes context, box.installPmd_passes context, fun _ => configured _,
      fun _ _ nonempty => box.runPmd_refuses _ nonempty⟩

/-- The execution of an adapter begins with a look at the clock and the context's check. -/
def Adapter.ChecksFirst (adapter : Adapter Host) : Prop :=
  ∃ (program : String) (tool : Context → String → List String → Action Host Output),
    ∀ context config files, adapter.execute context config files = do
      let now ← Action.always Clock.read
      let _ ← Action.ofExcept (context.check now program)
      tool context config files

/-- What an adapter does before it runs its tool is a passage. -/
structure Adapter.Prepares (may : Host → Host → Prop) (context : Context) (adapter : Adapter Host) :
    Prop where
  check : Passes may context (adapter.check context)
  install : ∀ request, Passes may context (adapter.install context request)
  configure : ∀ rule, Passes may context (adapter.configure rule)

theorem Adapter.ChecksFirst.heeds {may : Host → Host → Prop} (passage : Passage may)
    {context : Context} {adapter : Adapter Host} (checks : adapter.ChecksFirst)
    (prepares : adapter.Prepares may context) : adapter.Heeds may context := by
  refine ⟨prepares.check, prepares.install, prepares.configure, fun config files _ => ?_⟩
  obtain ⟨program, tool, begins⟩ := checks
  rw [begins]
  exact (refuses_check program _).of_quiet passage

/-! ### Evaluations -/

section Evaluation

variable {may : Host → Host → Prop} {context : Context} {adapter : Adapter Host}

theorem Evaluator.ensureAvailable_passes (passage : Passage may) (heeds : adapter.Heeds may context)
    (request : InstallRequest) : Passes may context (ensureAvailable context adapter request) := by
  unfold ensureAvailable
  refine heeds.check.outcome.bind passage fun first => ?_
  split
  · exact passes_pure passage ()
  refine heeds.check.outcome.bind passage fun second => ?_
  split
  · exact passes_pure passage ()
  refine ((heeds.install request).adapt _).bind passage fun _ => ?_
  exact heeds.check.adapt _

theorem Evaluator.findings_refuses (passage : Passage may) (heeds : adapter.Heeds may context)
    (request : InstallRequest) (rule : Rule) {files : List String} (nonempty : files ≠ []) :
    Refuses may context (findings context adapter request rule files) := by
  unfold findings
  refine (ensureAvailable_passes passage heeds request).bind_refuses passage fun _ => ?_
  refine (heeds.configure rule).bind_refuses passage fun config => ?_
  exact (heeds.execute config files nonempty).bind _

theorem Evaluator.run_over (passage : Passage may) (evaluator : Evaluator Host)
    (heed : ∀ registry ∈ evaluator.adapters, ∀ adapter ∈ registry.adapters, adapter.Heeds may context)
    (rule : Rule) (files : List String) (pinned : Option String) (suggestion : Option Suggestion)
    {host : Host} (past : context.IsOver host.now) :
    let ran := evaluator.run context rule files pinned suggestion host
    let kept := Selector.keep rule.selector files
    (kept = [] → ran.1 = .ok (.trivial rule.id evaluator.engine)) ∧
      (kept ≠ [] → ∃ failure, ran.1 = .error failure) ∧ may host ran.2 := by
  intro ran kept
  have begun : may host (Clock.read host).2 := passage.quiet host.quiet_read
  simp only [ran, run_apply]
  by_cases empty : kept = []
  · rw [if_pos empty]
    exact ⟨fun _ => rfl, fun nonempty => absurd empty nonempty, begun⟩
  rw [if_neg empty]
  refine ⟨fun same => absurd same empty, ?_⟩
  cases found : evaluator.adapterFor rule (Selector.language rule.selector kept) pinned with
  | error failure => exact ⟨fun _ => ⟨failure, rfl⟩, begun⟩
  | ok adapter =>
    have heeds : adapter.Heeds may context := by
      cases given : evaluator.adapters with
      | none => simp [adapterFor, given] at found
      | some registry => exact heed registry given adapter (adapterFor_mem found given)
    obtain ⟨⟨failure, failed⟩, passed⟩ := findings_refuses passage heeds evaluator.install rule empty
      (Clock.read host).2 (past.later (passage.later begun))
    dsimp only
    rcases outcome : findings context adapter evaluator.install rule kept (Clock.read host).2 with
      ⟨failure' | list, after⟩
    · rw [outcome] at passed
      exact ⟨fun _ => ⟨failure', rfl⟩, passage.trans begun passed⟩
    · rw [outcome] at failed
      cases failed

end Evaluation

/-- An engine that is asked for a verdict when its context is already over gives none, unless the rule
concerns no file; its adapters are built-in ones, or check the context before they run their tool. No
program is started either, unless an adapter of another making starts one to prepare its tool. -/
theorem EngineKind.validate_over (kind : EngineKind) (config : Option (EngineConfig Host))
    (context : Context) (rule : Rule) (files : List String) (host : Host)
    (wary : ∀ given ∈ config, ∀ adapter ∈ given.adapters.adapters, adapter.IsBuiltin ∨
      adapter.ChecksFirst ∧ adapter.Prepares Host.Later context)
    (past : context.IsOver host.now) :
    let validated := (kind.engine config).validate context rule files host
    let kept := Selector.keep rule.selector files
    (kept = [] → validated.1 = .ok (.trivial rule.id kind.name)) ∧
      (kept ≠ [] → ∃ failure, validated.1 = .error failure) ∧
      ((∀ given ∈ config, ∀ adapter ∈ given.adapters.adapters, adapter.IsBuiltin ∨
        adapter.Prepares Host.Quiet context) → validated.2.calls = host.calls) := by
  intro validated kept
  have evaluates {may : Host → Host → Prop} (passage : Passage may)
      (heed : ∀ given ∈ config, ∀ adapter ∈ given.adapters.adapters, adapter.Heeds may context) :
      (kept = [] → validated.1 = .ok (.trivial rule.id kind.name)) ∧
        (kept ≠ [] → ∃ failure, validated.1 = .error failure) ∧ may host validated.2 := by
    refine Evaluator.run_over passage _ (fun registry known => ?_) rule files _ _ past
    obtain ⟨given, here, rfl⟩ := Option.map_eq_some_iff.mp known
    exact heed given here
  have answers := evaluates Host.later_passage fun given here adapter known => by
    rcases wary given here adapter known with builtin | ⟨checks, prepares⟩
    · exact (builtin.heeds context).of_quiet Host.later_passage
    · exact checks.heeds Host.later_passage prepares
  refine ⟨answers.1, answers.2.1, fun still => ?_⟩
  have quiet := evaluates Host.quiet_passage fun given here adapter known => by
    rcases still given here adapter known, wary given here adapter known with
      ⟨builtin | prepares, builtin' | ⟨checks, -⟩⟩
    · exact builtin.heeds context
    · exact builtin.heeds context
    · exact builtin'.heeds context
    · exact checks.heeds Host.quiet_passage prepares
  exact quiet.2.2.calls

/-- An adapter of another making, which is always there. -/
def Adapter.attentive : Adapter Host where
  capabilities := ⟨"attentive", ["javascript"], ["pattern"], "1.0"⟩
  check _ := pure ()
  install _ _ := pure ()
  configure rule := pure rule.id
  execute context _ _ := do
    let now ← Action.always Clock.read
    let _ ← Action.ofExcept (context.check now "attentive")
    return .blank
  parse _ := pure []

theorem Adapter.attentive_prepares {may : Host → Host → Prop} (passage : Passage may)
    (context : Context) : attentive.Prepares may context where
  check := passes_pure passage ()
  install _ := passes_pure passage ()
  configure rule := passes_pure passage rule.id

theorem Adapter.attentive_checksFirst : attentive.ChecksFirst :=
  ⟨"attentive", fun _ _ _ => pure .blank, fun _ _ _ => rfl⟩

/-- A machine without files and programs. -/
def Host.bare : Host :=
  ⟨.empty, [], [], "/", 5, [], []⟩

/-- An evaluation is called off at the moment in which it begins; its adapters are the attentive one and,
behind it, the built-in ones. -/
theorem Adapter.attentive_over :
    let box : Toolbox := ⟨"/tools", .default⟩
    let config : EngineConfig Host := ⟨"/tools", ⟨attentive :: box.adapters.adapters⟩⟩
    let context : Context := ⟨some 5, none, none⟩
    let rule : Rule := ⟨"A", true, "", .error, none, none,
      ⟨[("engine", .string "pattern"), ("pattern", .string "x")]⟩, none, none⟩
    let validated := (EngineKind.pattern.engine (some config)).validate context rule ["a.js"] .bare
    context.IsOver Host.bare.now ∧ (∃ failure, validated.1 = .error failure) ∧
      validated.2.calls = [] := by
  intro box config context rule validated
  have past : context.IsOver Host.bare.now := .inl rfl
  have members : ∀ given ∈ some config, ∀ adapter ∈ given.adapters.adapters,
      adapter = attentive ∨ adapter.IsBuiltin := by
    intro given here adapter known
    obtain rfl := Option.some.inj here
    rcases List.mem_cons.mp known with rfl | builtin
    · exact .inl rfl
    · exact .inr ⟨box, builtin⟩
  have wary : ∀ given ∈ some config, ∀ adapter ∈ given.adapters.adapters, adapter.IsBuiltin ∨
      adapter.ChecksFirst ∧ adapter.Prepares Host.Later context := by
    intro given here adapter known
    rcases members given here adapter known with rfl | builtin
    · exact .inr ⟨attentive_checksFirst, attentive_prepares Host.later_passage context⟩
    · exact .inl builtin
  obtain ⟨-, refused, quiet⟩ :=
    EngineKind.validate_over .pattern (some config) context rule ["a.js"] .bare wary past
  refine ⟨past, refused (by decide), quiet fun given here adapter known => ?_⟩
  rcases members given here adapter known with rfl | builtin
  · exact .inr (attentive_prepares Host.quiet_passage context)
  · exact .inl builtin

end PolicyLint
